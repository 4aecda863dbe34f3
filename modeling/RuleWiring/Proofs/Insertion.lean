import Mathlib
import RuleWiring.Proofs.Remade
import RuleWiring.Proofs.SameGraph
import RuleWiring.Proofs.Signals

/-!
# The order of insertion does not matter

Two diagrams with the same graph have their nodes at different positions and visit them in
different orders. An evaluation of the first leaves behind what every node has put out, and a
store in which every node puts out the same again (`Recorded`). The second diagram, visited in its
own order, then takes one node after the other from there: what comes in at a node has been put
out before, and is what comes in at the same node of the first (`Replayed`). So nothing fails that
has not failed before, and nothing new is stored.
-/

namespace RuleWiring

open EvalM Growth

variable {σ β : Type} {alg : BoolAlgebra σ β} {s s' : Sketch} {d d' : Diagram}
  {inputs : Neighborhood β} {mode : EvalMode} {st st' u : σ}

/-- What a node puts out depends on what comes in at its ports. -/
theorem nodeSignal_congr {signals signals' : Signals β} {i j : Nat} {n : Node}
    (h : ∀ p, fetch alg d signals i n p = fetch alg d' signals' j n p) :
    nodeSignal alg d inputs signals i n = nodeSignal alg d' inputs signals' j n := by
  have hbit : ∀ p, fetchBit alg d signals i n p = fetchBit alg d' signals' j n p := fun p => by
    rw [fetchBit, fetchBit, h]
  unfold nodeSignal
  split <;> simp only [h, hbit]

/-- Whether all nodes are allowed does not depend on their order. -/
theorem checkSupported_perm (hnodes : d.nodes.Perm d'.nodes)
    (h : checkSupported d mode = .ok ()) : checkSupported d' mode = .ok () := by
  have hnone : d.nodes.findSome? (Node.obstacle? mode) = none := by
    unfold checkSupported at h
    split at h
    · assumption
    · cases h
  have hnone' : d'.nodes.findSome? (Node.obstacle? mode) = none :=
    List.findSome?_eq_none_iff.mpr fun n hn =>
      List.findSome?_eq_none_iff.mp hnone n (hnodes.mem_iff.mpr hn)
  rw [checkSupported, hnone']

namespace Diagram

/-! ## The first evaluation -/

/-- The nodes visited so far would put out the same once more, and add nothing. -/
structure Recorded (M : Memory alg) (d : Diagram) (inputs : Neighborhood β) (done : List Nat)
    (st : σ) (signals : Signals β) : Prop where
  settled : M.Grows st st
  size : signals.size = d.nodes.length
  heldInputs : M.HoldsInputs st inputs
  heldSignals : M.HoldsSignals st signals
  again : ∀ i ∈ done, ∀ n, d.nodes[i]? = some n → ∃ v, signalAt? signals i = some v
    ∧ ∀ u, M.Grows st u → (nodeSignal alg d inputs signals i n).exec u = (.ok v, u)

/-- A node does not feed itself or one that was visited before. -/
theorem not_feeds_of_order (h : Sketch.Passed s d) {done rest : List Nat} {i k : Nat}
    (horder : done ++ i :: rest = d.order) (hk : k ∈ done ++ [i]) : ¬ d.Feeds i k := by
  intro hf
  have hlt := h.feeds_before hf
  rcases List.mem_append.mp hk with hk | hk
  · have hi : i ∉ done := by
      have hnd : (done ++ i :: rest).Nodup := by
        rw [horder]
        exact h.order_perm.nodup_iff.mpr List.nodup_range
      exact fun hi => List.disjoint_of_nodup_append hnd hi (List.mem_cons_self ..)
    have hplace := List.idxOf_lt_length_of_mem hk
    rw [← horder, List.idxOf_append_of_mem hk, List.idxOf_append_of_notMem hi] at hlt
    omega
  · rw [List.mem_singleton.mp hk] at hlt
    exact Nat.lt_irrefl _ hlt

theorem fetch_set (h : Sketch.Passed s d) {signals : Signals β} {i k : Nat}
    (hik : ¬ d.Feeds i k) (v : Signal β) (n : Node) (p : Port) :
    fetch alg d (signals.setIfInBounds i (some v)) k n p = fetch alg d signals k n p := by
  unfold fetch
  cases hin : d.input? k p with
  | none => rfl
  | some src =>
      cases src with
      | node j =>
          have hij : i ≠ j := fun hij => hik (hij ▸ h.feeds_of_input? hin)
          have hsame := signalAt?_set signals i j v
          rw [if_neg fun hand => hij hand.1] at hsame
          rw [signalAt?, signalAt?] at hsame
          simp only [hsame]
      | literal l => cases l <;> rfl

/-- **One node recorded.** -/
theorem recorded_set {M : Memory alg} (h : Sketch.Passed s d) {done rest : List Nat} {i : Nat}
    (horder : done ++ i :: rest = d.order) {signals : Signals β}
    (hs : Recorded M d inputs done st signals) {n : Node} (hn : d.nodes[i]? = some n)
    {v : Signal β} (hrun : (nodeSignal alg d inputs signals i n).exec st = (.ok v, st')) :
    M.Grows st st' ∧ Recorded M d inputs (done ++ [i]) st' (signals.setIfInBounds i (some v)) := by
  obtain ⟨hgrows, hv, hagain⟩ :=
    M.nodeSignal_repeats hs.settled hs.heldInputs hs.heldSignals i n v st' hrun
  have hi : i < signals.size := hs.size ▸ (List.getElem?_eq_some_iff.mp hn).1
  refine ⟨hgrows, M.settled hgrows, ?_, keeps_inputs hgrows hs.heldInputs,
    M.holdsSignals_set hgrows hs.heldSignals i hv, fun k hk m hm => ?_⟩
  · rw [Array.size_setIfInBounds, hs.size]
  · -- a node that was visited before does not look at the new signal
    have hsame : nodeSignal alg d inputs (signals.setIfInBounds i (some v)) k m
        = nodeSignal alg d inputs signals k m :=
      nodeSignal_congr (fetch_set h (not_feeds_of_order h horder hk) v m)
    rw [hsame, signalAt?_set]
    by_cases hik : i = k
    · subst hik
      rw [hn] at hm
      cases hm
      exact ⟨v, if_pos ⟨rfl, hi⟩, hagain⟩
    · rw [if_neg fun hand => hik hand.1]
      have hdone : k ∈ done := (List.mem_append.mp hk).resolve_right fun hmem =>
        hik (List.mem_singleton.mp hmem).symm
      obtain ⟨w, hw, hwagain⟩ := hs.again k hdone m hm
      exact ⟨w, hw, fun u hu => hwagain u (M.trans hgrows hu)⟩

/-- **All nodes recorded.** -/
theorem sweep_recorded {M : Memory alg} (h : Sketch.Passed s d) :
    ∀ (rest done : List Nat) {signals final : Signals β} {st st' : σ}, done ++ rest = d.order →
      Recorded M d inputs done st signals →
      (sweep alg d inputs rest signals).exec st = (.ok final, st') →
      M.Grows st st' ∧ Recorded M d inputs d.order st' final
  | [], done, signals, final, st, st', horder, hs, hrun => by
      rw [List.append_nil] at horder
      cases hrun
      exact ⟨hs.settled, horder ▸ hs⟩
  | i :: rest, done, signals, final, st, st', horder, hs, hrun => by
      have hmem : i ∈ d.order := by rw [← horder]; simp
      have hn := List.getElem?_eq_getElem (List.mem_range.mp (h.order_perm.mem_iff.mp hmem))
      simp only [sweep, hn] at hrun
      rw [exec_bind] at hrun
      split at hrun
      · rename_i v st1 hnode
        obtain ⟨hgrows, hs'⟩ := recorded_set h horder hs hn hnode
        obtain ⟨hgrows', hfinal⟩ :=
          sweep_recorded h rest (done ++ [i]) (List.append_cons .. ▸ horder) hs' hrun
        exact ⟨M.trans hgrows hgrows', hfinal⟩
      · cases hrun

/-! ## The second evaluation -/

/-- The nodes visited so far have put out what the nodes with the same ids had put out. -/
structure Replayed (d d' : Diagram) (final : Signals β) (done : List Nat)
    (signals : Signals β) : Prop where
  size : signals.size = d'.nodes.length
  same : ∀ j ∈ done, ∀ i < d.nodes.length, d.idAt i = d'.idAt j →
    signalAt? signals j = signalAt? final i

/-- The same comes in at a node of both diagrams, once all that feeds it has been visited. -/
theorem fetch_replayed (h : Sketch.Passed s d) (h' : Sketch.Passed s' d') (hg : SameGraph d d')
    {final signals : Signals β} {done : List Nat} (hs : Replayed d d' final done signals)
    {i j : Nat} {n : Node} (hn : d.nodes[i]? = some n) (hn' : d'.nodes[j]? = some n)
    (hready : ∀ k, d'.Feeds k j → k ∈ done) (p : Port) :
    fetch alg d' signals j n p = fetch alg d final i n p := by
  unfold fetch
  cases hin : d.input? i p with
  | none => rw [h.input?_none_of_sameGraph h' hg hn hn' hin]
  | some src =>
      obtain ⟨src', hin', hname⟩ := h.input?_of_sameGraph h' hg hn hn' hin
      rw [hin']
      cases src with
      | node k =>
          cases src' with
          | node k' =>
              obtain ⟨m, hm⟩ := h.exists_node_of_input? hin
              have hsame := hs.same k' (hready k' (h'.feeds_of_input? hin')) k
                (List.getElem?_eq_some_iff.mp hm).1 (Sum.inl.inj hname).symm
              rw [signalAt?, signalAt?] at hsame
              simp only [hsame]
          | literal l => cases hname
      | literal l =>
          cases src' with
          | node k' => cases hname
          | literal l' =>
              cases hname
              cases l <;> rfl

theorem replayed_set (h : Sketch.Passed s d) {final signals : Signals β} {done : List Nat}
    (hs : Replayed d d' final done signals) {i j : Nat} {n : Node} {v : Signal β}
    (hn : d.nodes[i]? = some n) (hn' : d'.nodes[j]? = some n)
    (hv : signalAt? final i = some v) :
    Replayed d d' final (done ++ [j]) (signals.setIfInBounds j (some v)) := by
  have hj : j < signals.size := hs.size ▸ (List.getElem?_eq_some_iff.mp hn').1
  refine ⟨by rw [Array.size_setIfInBounds, hs.size], fun k hk l hl hid => ?_⟩
  rw [signalAt?_set]
  by_cases hjk : j = k
  · subst hjk
    have hli : l = i := by
      refine h.eq_of_idAt hl (List.getElem?_eq_some_iff.mp hn).1 ?_
      rw [hid, Document.idAt_of_getElem? hn, Document.idAt_of_getElem? hn']
    rw [if_pos ⟨rfl, hj⟩, hli, hv]
  · rw [if_neg fun hand => hjk hand.1]
    refine hs.same k ((List.mem_append.mp hk).resolve_right fun hmem => ?_) l hl hid
    exact hjk (List.mem_singleton.mp hmem).symm

/-- **All nodes replayed**, without anything new in the store. -/
theorem sweep_replayed {M : Memory alg} (h : Sketch.Passed s d) (h' : Sketch.Passed s' d')
    (hg : SameGraph d d') {final : Signals β} (hfinal : Recorded M d inputs d.order st final)
    (hu : M.Grows st u) : ∀ (rest done : List Nat) {signals : Signals β},
      done ++ rest = d'.order → Replayed d d' final done signals →
      ∃ final', (sweep alg d' inputs rest signals).exec u = (.ok final', u)
        ∧ Replayed d d' final d'.order final'
  | [], done, signals, horder, hs => by
      rw [List.append_nil] at horder
      exact ⟨signals, rfl, horder ▸ hs⟩
  | j :: rest, done, signals, horder, hs => by
      have hmem : j ∈ d'.order := by rw [← horder]; simp
      have hn' := List.getElem?_eq_getElem (List.mem_range.mp (h'.order_perm.mem_iff.mp hmem))
      have hnd : (done ++ j :: rest).Nodup := by
        rw [horder]
        exact h'.order_perm.nodup_iff.mpr List.nodup_range
      -- what feeds a node comes before it in the order, so it has been visited
      have hready : ∀ k, d'.Feeds k j → k ∈ done := by
        intro k hk
        have hlt := h'.feeds_before hk
        rw [← horder] at hlt
        exact mem_front_of_idxOf_lt hnd hlt
      obtain ⟨i, hn⟩ := Sketch.Passed.exists_position hg.symm hn'
      have hi : i ∈ d.order :=
        h.order_perm.mem_iff.mpr (List.mem_range.mpr (List.getElem?_eq_some_iff.mp hn).1)
      obtain ⟨v, hv, hagain⟩ := hfinal.again i hi _ hn
      have hnode := hagain u hu
      rw [← nodeSignal_congr (fetch_replayed h h' hg hs hn hn' hready)] at hnode
      simp only [sweep, hn']
      rw [exec_bind_ok hnode]
      exact sweep_replayed h h' hg hfinal hu rest (done ++ [j]) (List.append_cons .. ▸ horder)
        (replayed_set h hs hn hn' hv)

/-- **One evaluation after the other.** If the first diagram has a value, then the second has the
same, found without adding anything to the store. -/
theorem evaluate_again {M : Memory alg} (h : Sketch.Passed s d) (h' : Sketch.Passed s' d')
    (hg : SameGraph d d') (hst : M.Grows st st) (hin : M.HoldsInputs st inputs) {x : β}
    (hrun : (evaluate alg d inputs mode).exec st = (.ok x, st')) :
    (evaluate alg d' inputs mode).exec st' = (.ok x, st') := by
  unfold evaluate at hrun
  split at hrun
  · cases hrun
  · rename_i hsupported
    rw [exec_bind] at hrun
    split at hrun
    · rename_i final st1 hsweep
      have hnone : M.HoldsSignals st (Array.replicate d.nodes.length none) := by
        intro j v hv
        rw [signalAt?_replicate] at hv
        cases hv
      have hstart : Recorded M d inputs [] st (Array.replicate d.nodes.length none) :=
        ⟨hst, Array.size_replicate, hin, hnone, by simp⟩
      obtain ⟨_, hfinal⟩ := sweep_recorded h d.order [] rfl hstart hsweep
      have houtput : signalAt? final d.output = some (.bit x) ∧ st1 = st' := by
        rw [signalAt?]
        split at hrun
        · rename_i hx
          cases hrun
          exact ⟨hx, rfl⟩
        · cases hrun
      obtain ⟨hx, rfl⟩ := houtput
      have hstart' : Replayed d d' final [] (Array.replicate d'.nodes.length none) :=
        ⟨Array.size_replicate, by simp⟩
      obtain ⟨final', hsweep', hs⟩ :=
        sweep_replayed h h' hg hfinal hfinal.settled d'.order [] rfl hstart'
      have hmem : d'.output ∈ d'.order :=
        h'.order_perm.mem_iff.mpr (List.mem_range.mpr h'.output_spec.1)
      -- the two output nodes have the same id
      have hx' := (hs.same d'.output hmem d.output h.output_spec.1 hg.output).trans hx
      rw [signalAt?] at hx'
      rw [evaluate, checkSupported_perm hg.nodes hsupported]
      dsimp only
      rw [exec_bind_ok hsweep', hx']
      rfl
    · cases hrun

/-- Where nothing is stored, one evaluation has the value of the other. -/
theorem evaluateBits_again (h : Sketch.Passed s d) (h' : Sketch.Passed s' d')
    (hg : SameGraph d d') {n : Neighborhood Bool} {v : Bool}
    (hrun : evaluateBits d n mode = .ok v) : evaluateBits d' n mode = .ok v := by
  rw [evaluateBits_eq, outcome] at hrun ⊢
  have hin : bitMemory.HoldsInputs () n := ⟨trivial, trivial, trivial⟩
  rw [evaluate_again h h' hg trivial hin (Prod.ext hrun rfl)]

/--
**The order of insertion does not matter to evaluation.**

The two diagrams are any that were accepted and have the same graph, whatever the orders in which
their nodes and edges were added. In either mode, one has a bit at a neighbourhood exactly if the
other has, and it is the same bit. And if the first has a term at three terms of an arena, then
the second, evaluated next in the arena that the first has left, has the same term, and the arena
stays as it is. The two diagrams may be one: then this says that an evaluation that is done twice
finds everything it needs the second time.
-/
theorem evaluate_sameGraph (h : s.finish = .ok d) (h' : s'.finish = .ok d') (hg : SameGraph d d')
    (mode : EvalMode) :
    (∀ n v, evaluateBits d n mode = .ok v ↔ evaluateBits d' n mode = .ok v)
      ∧ ∀ (a b : TermArena) (l c r t : Nat), TermArena.Reachable a →
        l < a.size → c < a.size → r < a.size → evaluateTerms d ⟨l, c, r⟩ mode a = (.ok t, b) →
        evaluateTerms d' ⟨l, c, r⟩ mode b = (.ok t, b) := by
  have hp := Sketch.finish_passed h
  have hp' := Sketch.finish_passed h'
  refine ⟨fun n v => ⟨evaluateBits_again hp hp' hg, evaluateBits_again hp' hp hg.symm⟩, ?_⟩
  intro a b l c r t ha hl hc hr hrun
  have hst := TermArena.extends_refl (TermArena.valid_reachable ha)
  have hin : TermArena.memory.HoldsInputs a ⟨l, c, r⟩ := ⟨hl, hc, hr⟩
  exact evaluate_again hp hp' hg hst hin hrun

theorem evaluate_sameGraph_shuffled :
    (evaluateTerms Sketch.gatedDiagram ⟨0, 1, 2⟩ .lifted TermArena.threeVars).1 = .ok 1
      ∧ Sketch.gatedDiagram.order ≠ Sketch.shuffledDiagram.order
      ∧ let b := (evaluateTerms Sketch.gatedDiagram ⟨0, 1, 2⟩ .lifted TermArena.threeVars).2
        TermArena.threeVars.size < b.size
          ∧ evaluateTerms Sketch.shuffledDiagram ⟨0, 1, 2⟩ .lifted b = (.ok 1, b) := by
  have h : Sketch.gated.finish = .ok Sketch.gatedDiagram := rfl
  have h' : Sketch.shuffled.finish = .ok Sketch.shuffledDiagram := rfl
  have hreach : TermArena.Reachable TermArena.threeVars := .var 2 (.var 1 (.var 0 .empty))
  have hone : (evaluateTerms Sketch.gatedDiagram ⟨0, 1, 2⟩ .lifted TermArena.threeVars).1
      = .ok 1 := by
    decide +kernel
  refine ⟨hone, by decide +kernel, by decide +kernel, ?_⟩
  exact (evaluate_sameGraph h h' Sketch.sameGraph_shuffled .lifted).2 _ _ 0 1 2 1 hreach
    (by decide +kernel) (by decide +kernel) (by decide +kernel) (Prod.ext hone rfl)

end Diagram

end RuleWiring
