import Mathlib
import RuleWiring.Diagram.Order

/-!
# The order of evaluation

What the visits keep to, and what that says about the order once all nodes have been
visited. A node enters the queue at the visit to the last node that feeds it, so it cannot
have been there before; that is why no node is visited twice.

Nothing is assumed of the links: they may be parallel, lead from a node to itself, or come
from nowhere.
-/

namespace RuleWiring

namespace Order

variable {n : Nat} {ls : List Link}

theorem pending_eq_zero {done : List Nat} {v : Nat} :
    pending ls done v = 0 ↔ ∀ l ∈ ls, l.2 = v → l.1 ∈ done := by
  rw [pending, List.countP_eq_zero]
  constructor
  · intro h l hl hv
    by_contra hd
    exact h l hl (decide_eq_true ⟨hv, hd⟩)
  · intro h l hl hp
    obtain ⟨hv, hd⟩ := of_decide_eq_true hp
    exact hd (h l hl hv)

/-- Visited nodes, the last one first, of which each was visited after all that feed it. -/
def Settled (ls : List Link) : List Nat → Prop
  | [] => True
  | v :: done => (∀ l ∈ ls, l.2 = v → l.1 ∈ done) ∧ Settled ls done

theorem settled_mem {u v : Nat} (hl : (v, u) ∈ ls) :
    ∀ {done : List Nat}, Settled ls done → u ∈ done → v ∈ done
  | [], _, hu => absurd hu (by simp)
  | w :: done, h, hu => by
      rcases List.mem_cons.mp hu with hu | hu
      · exact List.mem_cons_of_mem _ (h.1 _ hl hu)
      · exact List.mem_cons_of_mem _ (settled_mem hl h.2 hu)

/-- What holds between two visits. -/
structure Visiting (n : Nat) (ls : List Link) (queue done : List Nat) : Prop where
  /-- No node is queued or visited twice. -/
  nodup : (queue ++ done).Nodup
  below : ∀ v ∈ queue ++ done, v < n
  /-- All that feeds a queued node has been visited. -/
  ready : ∀ v ∈ queue, ∀ l ∈ ls, l.2 = v → l.1 ∈ done
  settled : Settled ls done

theorem visiting_start (n : Nat) (ls : List Link) : Visiting n ls (sources n ls) [] where
  nodup := by
    rw [List.append_nil]
    exact List.nodup_range.filter _
  below := by
    intro v hv
    rw [List.append_nil] at hv
    exact List.mem_range.mp (List.mem_filter.mp hv).1
  ready := by
    intro v hv
    have h := (List.mem_filter.mp hv).2
    exact pending_eq_zero.mp (of_decide_eq_true h)
  settled := trivial

theorem mem_released {done : List Nat} {u v : Nat} (h : u ∈ released n ls done v) :
    u < n ∧ (v, u) ∈ ls ∧ ∀ l ∈ ls, l.2 = u → l.1 ∈ done := by
  obtain ⟨hs, hp⟩ := List.mem_filter.mp h
  obtain ⟨hn, ht⟩ := List.mem_filter.mp hs
  obtain ⟨l, hl, hu⟩ := List.mem_map.mp (of_decide_eq_true ht)
  obtain ⟨hl, hv⟩ := List.mem_filter.mp hl
  refine ⟨List.mem_range.mp hn, ?_, pending_eq_zero.mp (of_decide_eq_true hp)⟩
  rwa [← of_decide_eq_true hv, ← hu]

theorem released_nodup {done : List Nat} {v : Nat} : (released n ls done v).Nodup :=
  (List.nodup_range.filter _).filter _

/-- **A visit keeps all of it.** -/
theorem visiting_visit {queue done : List Nat} {v : Nat} (h : Visiting n ls (v :: queue) done) :
    Visiting n ls (queue ++ released n ls (v :: done) v) (v :: done) := by
  have hnd := h.nodup
  rw [List.cons_append, List.nodup_cons] at hnd
  -- a released node is fed by `v`, which has not been visited before
  have hnew : ∀ u ∈ released n ls (v :: done) v, u ∉ v :: (queue ++ done) := by
    intro u hu hold
    have hlink := (mem_released hu).2.1
    have hvd : v ∈ done := by
      rw [← List.cons_append] at hold
      rcases List.mem_append.mp hold with hq | hd
      · exact h.ready u hq _ hlink rfl
      · exact settled_mem hlink h.settled hd
    exact hnd.1 (List.mem_append_right _ hvd)
  -- the visited node moves to the others that are done, the released ones join the queue
  have hperm : (queue ++ released n ls (v :: done) v ++ v :: done).Perm
      (released n ls (v :: done) v ++ v :: (queue ++ done)) := by
    refine (List.perm_append_comm.append_right _).trans ?_
    rw [List.append_assoc]
    exact List.perm_middle.append_left _
  refine ⟨?_, ?_, ?_, ?_⟩
  · rw [hperm.nodup_iff]
    exact released_nodup.append (List.nodup_cons.mpr hnd) hnew
  · intro u hu
    rcases List.mem_append.mp hu with hu | hu
    · rcases List.mem_append.mp hu with hu | hu
      · exact h.below u (by simp [hu])
      · exact (mem_released hu).1
    · exact h.below u (by rcases List.mem_cons.mp hu with hu | hu <;> simp [hu])
  · intro u hu l hl hlu
    rcases List.mem_append.mp hu with hu | hu
    · exact List.mem_cons_of_mem _ (h.ready u (List.mem_cons_of_mem _ hu) l hl hlu)
    · exact (mem_released hu).2.2 l hl hlu
  · exact ⟨h.ready v (List.mem_cons_self ..), h.settled⟩

theorem visit_visiting : ∀ (fuel : Nat) {queue done : List Nat}, Visiting n ls queue done →
    ∃ queue', Visiting n ls queue' (visit n ls fuel queue done)
  | 0, queue, _, h => ⟨queue, h⟩
  | _ + 1, [], _, h => ⟨[], h⟩
  | fuel + 1, _ :: _, _, h => visit_visiting fuel (visiting_visit h)

/-! ## The finished order -/

/-- The order is a list of distinct nodes, and the nodes that feed a node come before it. -/
structure Legal (n : Nat) (ls : List Link) (order : List Nat) : Prop where
  nodup : order.Nodup
  below : ∀ v ∈ order, v < n
  before : ∀ l ∈ ls, l.2 ∈ order → order.idxOf l.1 < order.idxOf l.2

theorem before_of_settled {l : Link} (hl : l ∈ ls) : ∀ {done : List Nat}, Settled ls done →
    done.Nodup → l.2 ∈ done → done.reverse.idxOf l.1 < done.reverse.idxOf l.2
  | [], _, _, h => absurd h (by simp)
  | v :: done, hs, hnd, h => by
      rw [List.nodup_cons] at hnd
      rw [List.reverse_cons]
      by_cases hv : l.2 = v
      · -- `v` stands last, and what feeds it was visited before
        have hfeed : l.1 ∈ done.reverse := List.mem_reverse.mpr (hs.1 l hl hv)
        have hlast : l.2 ∉ done.reverse := by rw [hv, List.mem_reverse]; exact hnd.1
        rw [List.idxOf_append_of_mem hfeed, List.idxOf_append_of_notMem hlast]
        exact Nat.lt_of_lt_of_le (List.idxOf_lt_length_of_mem hfeed) (Nat.le_add_right ..)
      · -- both ends of the link stand before `v`
        have hmem : l.2 ∈ done := (List.mem_cons.mp h).resolve_left hv
        have hfeed : l.1 ∈ done := settled_mem hl hs.2 hmem
        rw [List.idxOf_append_of_mem (List.mem_reverse.mpr hfeed),
          List.idxOf_append_of_mem (List.mem_reverse.mpr hmem)]
        exact before_of_settled hl hs.2 hnd.2 hmem

theorem run_legal (n : Nat) (ls : List Link) : Legal n ls (run n ls) := by
  obtain ⟨queue, h⟩ := visit_visiting n (visiting_start n ls)
  have hnd := List.Nodup.of_append_right h.nodup
  refine ⟨List.nodup_reverse.mpr hnd, ?_, ?_⟩
  · intro v hv
    exact h.below v (List.mem_append_right _ (List.mem_reverse.mp hv))
  · intro l hl hv
    exact before_of_settled hl h.settled hnd (List.mem_reverse.mp hv)

/-- An order of as many nodes as there are lists all of them. -/
theorem perm_of_length {order : List Nat} (h : Legal n ls order) (hlen : order.length = n) :
    order.Perm (List.range n) := by
  have hsub : order ⊆ List.range n := fun v hv => List.mem_range.mpr (h.below v hv)
  refine (List.subperm_of_subset h.nodup hsub).perm_of_length_le ?_
  rw [List.length_range, hlen]

/-! ## The way to a node -/

/-- From every node that the sweep collects there is a way to the target. -/
theorem reaching_sound {target : Nat} : ∀ (order : List Nat) {v : Nat},
    v ∈ reaching ls target order → Relation.ReflTransGen (fun i j => (i, j) ∈ ls) v target
  | [], v, h => absurd h (by simp [reaching])
  | w :: order, v, h => by
      rw [reaching, List.foldr_cons] at h
      split at h
      · rename_i hw
        rcases List.mem_cons.mp h with h | h
        · -- `v` was collected because it is the target or feeds a node collected before
          subst h
          rcases hw with hw | hw
          · exact hw ▸ Relation.ReflTransGen.refl
          · obtain ⟨l, hl, hlink⟩ := List.any_eq_true.mp hw
            obtain ⟨h1, h2⟩ := of_decide_eq_true hlink
            refine Relation.ReflTransGen.head ?_ (reaching_sound order h2)
            rwa [← h1]
        · exact reaching_sound order h
      · exact reaching_sound order h

end Order

theorem mem_links {edges : List Edge} {l : Link} :
    l ∈ links edges ↔ ∃ e ∈ edges, e.source = .node l.1 ∧ e.target = l.2 := by
  rw [links, List.mem_filterMap]
  refine exists_congr fun e => and_congr_right fun _ => ?_
  unfold Edge.link?
  split
  · rename_i i hs
    rw [hs, Option.some.injEq, Prod.ext_iff, Source.node.injEq]
  · rename_i c hs
    simp [hs]

section

variable {nodes : List Node} {edges : List Edge}

/-- An order is the run, if that has visited every node. -/
theorem run_of_evaluationOrder_ok {order : List Nat} (h : evaluationOrder nodes edges = .ok order) :
    order = Order.run nodes.length (links edges) ∧ order.length = nodes.length := by
  unfold evaluationOrder at h
  dsimp only at h
  split at h
  · rename_i hlen
    injection h with h
    exact ⟨h.symm, h ▸ hlen⟩
  · exact absurd h (by simp)

/-- An error names the nodes that the run leaves waiting. -/
theorem cycle_of_evaluationOrder_error {e : StructuralError}
    (h : evaluationOrder nodes edges = .error e) :
    e = .cycle ((nodes.zipIdx.filter fun x =>
      0 < Order.pending (links edges) (Order.run nodes.length (links edges)) x.2).map (·.1.id)) := by
  unfold evaluationOrder at h
  dsimp only at h
  split at h
  · exact absurd h (by simp)
  · injection h with h
    exact h.symm

theorem evaluationOrder_ok {order : List Nat} (h : evaluationOrder nodes edges = .ok order) :
    Order.Legal nodes.length (links edges) order ∧ order.Perm (List.range nodes.length) := by
  obtain ⟨hrun, hlen⟩ := run_of_evaluationOrder_ok h
  have hlegal := Order.run_legal nodes.length (links edges)
  rw [← hrun] at hlegal
  exact ⟨hlegal, Order.perm_of_length hlegal hlen⟩

end

end RuleWiring
