import Mathlib
import RuleWiring.Proofs.Acyclic
import RuleWiring.Proofs.Ports

/-!
# The order by counting

`Order.run` looks at all links to tell whether a node is ready. The same order can be found with a
counter for each node, and then every link is followed only once: a counter starts at the number
of links into its node, parallel ones counted one by one, and goes down by one for each link that
is followed. At zero the node joins the queue.

This file says of the counting what it has to say of any loop that subtracts: no counter is taken
below zero, and the queue is empty after at most one visit for each node. It gives the order that
`evaluationOrder` gives, or the same cycle.

The rest is about the order itself. It exists exactly if there is no cycle, a cycle is reported
with all nodes on it or behind it and no others, and the order of the edges plays no part.
-/

namespace RuleWiring

theorem sorted_ext {l l' : List Nat} (h : l.Pairwise (· < ·)) (h' : l'.Pairwise (· < ·))
    (hmem : ∀ u, u ∈ l ↔ u ∈ l') : l = l' := by
  have hnd := h.imp fun hlt => Nat.ne_of_lt hlt
  have hnd' := h'.imp fun hlt => Nat.ne_of_lt hlt
  refine ((List.perm_ext_iff_of_nodup hnd hnd').mpr hmem).eq_of_pairwise ?_ h h'
  intro a b _ _ hab hba
  omega

namespace Order

variable {n : Nat} {ls : List Link}

/-! ## Counters -/

/-- The links into each of the first `n` nodes, counted one by one. -/
def countLinks (n : Nat) (ls : List Link) : List Nat :=
  ls.foldl (fun counts l => counts.modify l.2 (· + 1)) (List.replicate n 0)

/-- The nodes that a node feeds, by position, once for each link. -/
def targets (ls : List Link) (v : Nat) : List Nat :=
  ((ls.filter (·.1 = v)).map Prod.snd).mergeSort

/-- What is kept between two visits. -/
structure Tally where
  queue : List Nat
  /-- The nodes visited, the first one first. -/
  visited : List Nat
  /-- For each node, how many links into it have not been followed yet. -/
  counts : List Nat

namespace Tally

def start (n : Nat) (ls : List Link) : Tally where
  queue := (List.range n).filter fun v => (countLinks n ls)[v]? = some 0
  visited := []
  counts := countLinks n ls

/-- Follows a link into a node. There has to be such a node, and its counter must not be at zero
already. -/
def follow (t : Tally) (u : Nat) : Option Tally :=
  match t.counts[u]? with
  | some (k + 1) =>
      some { t with
        queue := if k = 0 then t.queue ++ [u] else t.queue
        counts := t.counts.set u k }
  | _ => none

/-- Visits nodes until the queue is empty. There is no result if a counter would be taken below
zero, or if there is still a queue after the given number of visits. -/
def loop (ls : List Link) : Nat → Tally → Option Tally
  | 0, t => if t.queue = [] then some t else none
  | visits + 1, t =>
      match t.queue with
      | [] => some t
      | v :: queue =>
          ((targets ls v).foldlM follow { t with queue, visited := t.visited ++ [v] }).bind
            (loop ls visits)

end Tally

/-! ## What the counters show -/

theorem getElem?_counts (c : Nat → Nat) {v : Nat} (hv : v < n) :
    ((List.range n).map c)[v]? = some (c v) := by
  rw [List.getElem?_map, List.getElem?_range hv, Option.map_some]

theorem getElem?_counts_beyond (c : Nat → Nat) {v : Nat} (hv : n ≤ v) :
    ((List.range n).map c)[v]? = none :=
  List.getElem?_eq_none (by simpa using hv)

theorem foldl_modify : ∀ (ls : List Link) (c : Nat → Nat),
    ls.foldl (fun counts l => counts.modify l.2 (· + 1)) ((List.range n).map c)
      = (List.range n).map fun v => c v + ls.countP fun l => l.2 = v
  | [], _ => rfl
  | l :: ls, c => by
      have hstep : ((List.range n).map c).modify l.2 (· + 1)
          = (List.range n).map fun v => c v + if l.2 = v then 1 else 0 := by
        refine List.ext_getElem? fun v => ?_
        rw [List.getElem?_modify]
        by_cases hv : v < n
        · rw [getElem?_counts c hv, getElem?_counts _ hv]
          by_cases hl : l.2 = v <;> simp [hl]
        · rw [getElem?_counts_beyond c (by omega), getElem?_counts_beyond _ (by omega)]
          rfl
      rw [List.foldl_cons, hstep, foldl_modify ls]
      refine List.map_congr_left fun v _ => ?_
      simp only [List.countP_cons, decide_eq_true_eq]
      omega

/-- At first a counter shows the links that come from nodes not yet visited: all of them. -/
theorem countLinks_eq (n : Nat) (ls : List Link) :
    countLinks n ls = (List.range n).map (pending ls []) := by
  have hzero : List.replicate n 0 = (List.range n).map fun _ => 0 := by simp
  rw [countLinks, hzero, foldl_modify]
  refine List.map_congr_left fun v _ => ?_
  rw [Nat.zero_add, pending]
  exact List.countP_congr fun l _ => by simp

theorem start_eq (n : Nat) (ls : List Link) :
    Tally.start n ls = ⟨sources n ls, [], (List.range n).map (pending ls [])⟩ := by
  have hqueue : (List.range n).filter (fun v => (countLinks n ls)[v]? = some 0) = sources n ls := by
    refine List.filter_congr fun v hv => ?_
    rw [countLinks_eq, getElem?_counts _ (List.mem_range.mp hv)]
    simp only [Option.some.injEq]
  rw [Tally.start, hqueue, countLinks_eq]

/-! ## Following the links from a node -/

/-- Taking a link off a counter that is not at zero. -/
theorem follow_eq {c d : Nat → Nat} (queue visited : List Nat) {u : Nat} (hu : u < n)
    (hself : c u = d u + 1) (hother : ∀ w, u ≠ w → c w = d w) :
    Tally.follow ⟨queue, visited, (List.range n).map c⟩ u
      = some ⟨if d u = 0 then queue ++ [u] else queue, visited, (List.range n).map d⟩ := by
  have hset : ((List.range n).map c).set u (d u) = (List.range n).map d := by
    refine List.ext_getElem? fun w => ?_
    by_cases hw : w < n
    · rw [getElem?_counts d hw]
      by_cases huw : u = w
      · subst huw
        exact List.getElem?_set_self (by simpa using hu)
      · rw [List.getElem?_set_ne huw, getElem?_counts c hw, hother w huw]
    · rw [getElem?_counts_beyond d (by omega)]
      exact List.getElem?_eq_none (by simpa using hw)
  rw [Tally.follow, getElem?_counts c hu, hself]
  dsimp only
  rw [hset]

/--
**Following links, one after the other.**

The nodes come sorted, each as often as there are links into it, and the counters allow for all of
these links. A node joins the queue at the last link into it, if it waits for no others, and
therefore the nodes that join are sorted as well.
-/
theorem foldlM_follow (d : Nat → Nat) (visited : List Nat) : ∀ (us queue : List Nat),
    us.Pairwise (· ≤ ·) → (∀ u ∈ us, u < n) →
    ∃ ready, us.foldlM Tally.follow
          ⟨queue, visited, (List.range n).map fun u => d u + us.count u⟩
        = some ⟨queue ++ ready, visited, (List.range n).map d⟩
      ∧ ready.Pairwise (· < ·) ∧ ∀ u, u ∈ ready ↔ u ∈ us ∧ d u = 0
  | [], queue, _, _ => ⟨[], by simp, .nil, by simp⟩
  | u :: us, queue, hsorted, hbelow => by
      rw [List.pairwise_cons] at hsorted
      have hstep := follow_eq (c := fun w => d w + (u :: us).count w)
        (d := fun w => d w + us.count w) queue visited
        (hbelow u (List.mem_cons_self ..)) (by rw [List.count_cons_self, Nat.add_assoc])
        (fun w hw => by rw [List.count_cons_of_ne hw])
      obtain ⟨ready, hfold, hready, hmem⟩ := foldlM_follow d visited us
        (if d u + us.count u = 0 then queue ++ [u] else queue) hsorted.2
        (fun w hw => hbelow w (List.mem_cons_of_mem _ hw))
      rw [List.foldlM_cons, hstep]
      change ∃ ready, us.foldlM Tally.follow _ = _ ∧ _
      rw [hfold]
      by_cases hzero : d u + us.count u = 0
      · -- this was the last link into `u`, so `u` joins, in front of the nodes that follow
        have hnot : u ∉ us := List.count_eq_zero.mp (by omega)
        refine ⟨u :: ready, by rw [if_pos hzero, List.append_assoc]; rfl,
          List.pairwise_cons.mpr ⟨fun w hw => ?_, hready⟩, ?_⟩
        · have hwus := ((hmem w).mp hw).1
          have hne : u ≠ w := fun he => hnot (he ▸ hwus)
          exact Nat.lt_of_le_of_ne (hsorted.1 w hwus) hne
        · intro w
          rw [List.mem_cons, List.mem_cons, hmem w]
          constructor
          · rintro (rfl | ⟨hw, hd⟩)
            · exact ⟨Or.inl rfl, by omega⟩
            · exact ⟨Or.inr hw, hd⟩
          · rintro ⟨rfl | hw, hd⟩
            · exact Or.inl rfl
            · exact Or.inr ⟨hw, hd⟩
      · -- `u` waits for another link, from the same node or elsewhere
        refine ⟨ready, by rw [if_neg hzero], hready, fun w => ?_⟩
        rw [hmem w, List.mem_cons]
        refine ⟨fun hw => ⟨Or.inr hw.1, hw.2⟩, fun hw => ⟨?_, hw.2⟩⟩
        rcases hw with ⟨rfl | hw, hd⟩
        · exact List.count_pos_iff.mp (by omega)
        · exact hw

theorem mem_targets {v u : Nat} : u ∈ targets ls v ↔ (v, u) ∈ ls := by
  rw [targets, List.mem_mergeSort, List.mem_map]
  constructor
  · rintro ⟨l, hl, rfl⟩
    obtain ⟨hl, hv⟩ := List.mem_filter.mp hl
    rwa [← of_decide_eq_true hv]
  · exact fun hl => ⟨(v, u), List.mem_filter.mpr ⟨hl, decide_eq_true rfl⟩, rfl⟩

theorem targets_sorted (ls : List Link) (v : Nat) : (targets ls v).Pairwise (· ≤ ·) := by
  have h : (targets ls v).Pairwise fun a b => decide (a ≤ b) = true := by
    refine List.pairwise_mergeSort (fun a b c hab hbc => ?_) (fun a b => ?_) _
    · simp only [decide_eq_true_eq] at *
      omega
    · simp only [Bool.or_eq_true, decide_eq_true_eq]
      omega
  exact h.imp of_decide_eq_true

/-- By a visit to `v` a node waits for as many links less as come from `v`. -/
theorem pending_eq_add {done : List Nat} {v : Nat} (hv : v ∉ done) (u : Nat) :
    pending ls done u = pending ls (v :: done) u + (targets ls v).count u := by
  have hcount : (targets ls v).count u = ls.countP fun l => l.1 = v ∧ l.2 = u := by
    rw [targets, (List.mergeSort_perm _ _).count_eq, List.count, List.countP_map,
      List.countP_filter]
    exact List.countP_congr fun l _ => by simp [and_comm]
  -- the links that are still waited for, split into those from `v` and the others
  rw [hcount, pending, List.countP_eq_countP_filter_add ls _ fun l => l.1 = v, List.countP_filter,
    List.countP_filter, Nat.add_comm, pending]
  congr 1
  · refine List.countP_congr fun l _ => ?_
    simp only [Bool.and_eq_true, decide_eq_true_eq, Bool.not_eq_true', decide_eq_false_iff_not,
      List.mem_cons, not_or]
    tauto
  · refine List.countP_congr fun l _ => ?_
    simp only [Bool.and_eq_true, decide_eq_true_eq]
    constructor
    · intro h
      exact ⟨h.2, h.1.1⟩
    · intro h
      exact ⟨⟨h.2, h.1 ▸ hv⟩, h.1⟩

/-! ## The visits -/

/-- **One visit**: the counters stay right, and the nodes that join the queue are those that
become ready. -/
theorem foldlM_targets (hin : Inside n ls) {queue visited done : List Nat} {v : Nat}
    (hv : v ∉ done) :
    (targets ls v).foldlM Tally.follow ⟨queue, visited, (List.range n).map (pending ls done)⟩
      = some ⟨queue ++ released n ls (v :: done) v, visited,
          (List.range n).map (pending ls (v :: done))⟩ := by
  have hsplit : pending ls done = fun u => pending ls (v :: done) u + (targets ls v).count u :=
    funext (pending_eq_add hv)
  obtain ⟨ready, hfold, hready, hmem⟩ := foldlM_follow (pending ls (v :: done)) visited
    (targets ls v) queue (targets_sorted ls v) fun u hu => (hin (v, u) (mem_targets.mp hu)).2
  have hreleased : ready = released n ls (v :: done) v := by
    refine sorted_ext hready ((List.pairwise_lt_range.filter _).filter _) fun u => ?_
    rw [hmem u, mem_targets, pending_eq_zero]
    -- at zero all links into `u` have been followed, and one of them came from `v`
    constructor
    · rintro ⟨hl, hfed⟩
      exact mem_released_of (hin (v, u) hl).2 hl hfed
    · intro hu
      exact (mem_released hu).2
  rw [hsplit, hfold, hreleased]

/-- **All visits.** With one visit for each node that is left, the queue runs empty. -/
theorem loop_eq (hin : Inside n ls) : ∀ (visits : Nat) {queue done : List Nat},
    Visiting n ls queue done → n ≤ visits + done.length →
    Tally.loop ls visits ⟨queue, done.reverse, (List.range n).map (pending ls done)⟩
      = some ⟨[], (visit n ls visits queue done).reverse,
          (List.range n).map (pending ls (visit n ls visits queue done))⟩
  | 0, queue, done, hv, hfuel => by
      have hle := length_le_of_visiting hv
      have hempty : queue = [] := List.length_eq_zero_iff.mp (by omega)
      rw [hempty, Tally.loop, if_pos rfl, visit]
  | _ + 1, [], _, _, _ => rfl
  | visits + 1, v :: queue, done, hv, hfuel => by
      have hnew : v ∉ done := fun hd =>
        List.disjoint_of_nodup_append hv.nodup (List.mem_cons_self ..) hd
      have hnext : done.reverse ++ [v] = (v :: done).reverse := List.reverse_cons.symm
      rw [Tally.loop, visit]
      dsimp only
      rw [foldlM_targets hin hnew, Option.bind_some, hnext]
      exact loop_eq hin visits (visiting_visit hv) (by rw [List.length_cons]; omega)

theorem pending_reverse (ls : List Link) (done : List Nat) :
    pending ls done.reverse = pending ls done := by
  funext v
  simp only [pending, List.mem_reverse]

/-- What counting comes to. -/
theorem loop_start (hin : Inside n ls) : Tally.loop ls n (Tally.start n ls)
    = some ⟨[], run n ls, (List.range n).map (pending ls (run n ls))⟩ := by
  rw [start_eq, run, pending_reverse]
  exact loop_eq hin n (visiting_start n ls) (by simp)

/-- A counter comes to zero unless its node is on a cycle or behind one. -/
theorem pending_run_eq_zero (hin : Inside n ls) {v : Nat} (hv : v < n) :
    pending ls (run n ls) v = 0 ↔ ¬ Tangled ls v := by
  rw [← mem_run_iff hin hv, pending_eq_zero]
  -- nodes that nobody waits for are caught, and those visited wait for none
  constructor
  · exact run_caught n ls hv
  · rintro hmem ⟨u, w⟩ hl rfl
    exact (run_legal n ls).mem hl hmem

/-! ## The links in another order -/

section Perm

variable {ls' : List Link}

theorem pending_perm (h : ls.Perm ls') : pending ls = pending ls' := by
  funext done v
  exact h.countP_eq _

theorem released_perm (h : ls.Perm ls') : released n ls = released n ls' := by
  funext done v
  have hsucc : successors n ls v = successors n ls' v := by
    unfold successors
    refine List.filter_congr fun u _ => ?_
    simp only [((h.filter _).map Prod.snd).mem_iff]
  rw [released, released, hsucc, pending_perm h]

theorem visit_perm (h : ls.Perm ls') : ∀ (fuel : Nat) (queue done : List Nat),
    visit n ls fuel queue done = visit n ls' fuel queue done
  | 0, _, _ => rfl
  | _ + 1, [], _ => rfl
  | fuel + 1, v :: queue, done => by
      rw [visit, visit, released_perm h, visit_perm h fuel]

theorem run_perm (h : ls.Perm ls') : run n ls = run n ls' := by
  rw [run, run, visit_perm h, sources, sources, pending_perm h]

end Perm

end Order

/-! ## The order of a diagram's nodes -/

/-- The order found by counting, or the nodes whose counters have not come to zero. There is
none if the counting goes wrong. -/
def countedOrder (nodes : List Node) (edges : List Edge) :
    Option (Except StructuralError (List Nat)) :=
  (Order.Tally.loop (links edges) nodes.length (Order.Tally.start nodes.length (links edges))).map
    fun t =>
      if t.visited.length = nodes.length then .ok t.visited
      else
        .error (.cycle ((nodes.zipIdx.filter fun p => 0 < t.counts.getD p.2 0).map (·.1.id)))

/-- All that is promised of the order of some nodes under their edges. -/
structure Ordered (nodes : List Node) (edges : List Edge) : Prop where
  /-- No counter is taken below zero, and at the end each node has been visited at most once. -/
  counted : ∃ t, Order.Tally.loop (links edges) nodes.length
      (Order.Tally.start nodes.length (links edges)) = some t
    ∧ t.queue = [] ∧ t.visited.Nodup ∧ ∀ v ∈ t.visited, v < nodes.length
  /-- Counting gives the order, or the error. -/
  agrees : countedOrder nodes edges = some (evaluationOrder nodes edges)
  /-- There is an order exactly if there is no cycle. -/
  ok_iff : (∃ order, evaluationOrder nodes edges = .ok order) ↔ Order.Acyclic (links edges)
  /-- It lists every node once, and what feeds a node before the node. -/
  legal : ∀ order, evaluationOrder nodes edges = .ok order →
    order.Perm (List.range nodes.length)
      ∧ ∀ e ∈ edges, ∀ i, e.source = .node i → order.idxOf i < order.idxOf e.target
  /-- Otherwise the error has the ids of the nodes on a cycle or behind one, all of them and no
  others, as they were added. -/
  stuck : ∀ e, evaluationOrder nodes edges = .error e → ∃ left : List (Node × Nat),
    left.Sublist nodes.zipIdx ∧ (∀ x ∈ nodes.zipIdx, x ∈ left ↔ Order.Tangled (links edges) x.2)
      ∧ e = .cycle (left.map (·.1.id))
  /-- The order of the edges plays no part. -/
  unordered : ∀ edges', edges.Perm edges' →
    evaluationOrder nodes edges' = evaluationOrder nodes edges

section

variable {nodes : List Node} {edges : List Edge}

theorem links_inside_of_ends
    (h : ∀ e ∈ edges, e.target < nodes.length ∧ e.source.Within nodes.length) :
    Order.Inside nodes.length (links edges) := by
  intro l hl
  obtain ⟨e, he, hs, ht⟩ := mem_links.mp hl
  have hends := h e he
  rw [hs, ht] at hends
  exact ⟨hends.2, hends.1⟩

theorem countedOrder_eq (hin : Order.Inside nodes.length (links edges)) :
    countedOrder nodes edges = some (evaluationOrder nodes edges) := by
  have hleft : (nodes.zipIdx.filter fun x => 0 < ((List.range nodes.length).map
        (Order.pending (links edges) (Order.run nodes.length (links edges)))).getD x.2 0)
      = nodes.zipIdx.filter fun x =>
        0 < Order.pending (links edges) (Order.run nodes.length (links edges)) x.2 := by
    refine List.filter_congr fun x hx => ?_
    have hv : x.2 < nodes.length := List.snd_lt_of_mem_zipIdx hx
    rw [List.getD_eq_getElem?_getD, Order.getElem?_counts _ hv, Option.getD_some]
  rw [countedOrder, Order.loop_start hin, Option.map_some, evaluationOrder]
  dsimp only
  rw [hleft]

theorem evaluationOrder_stuck (hin : Order.Inside nodes.length (links edges))
    {e : StructuralError} (h : evaluationOrder nodes edges = .error e) :
    ∃ left : List (Node × Nat), left.Sublist nodes.zipIdx
      ∧ (∀ x ∈ nodes.zipIdx, x ∈ left ↔ Order.Tangled (links edges) x.2)
      ∧ e = .cycle (left.map (·.1.id)) := by
  refine ⟨_, List.filter_sublist, fun x hx => ?_, cycle_of_evaluationOrder_error h⟩
  have hv : x.2 < nodes.length := List.snd_lt_of_mem_zipIdx hx
  rw [List.mem_filter, and_iff_right hx, decide_eq_true_eq, Nat.pos_iff_ne_zero, ne_eq,
    Order.pending_run_eq_zero hin hv, not_not]

theorem evaluationOrder_perm {edges' : List Edge} (h : edges.Perm edges') :
    evaluationOrder nodes edges' = evaluationOrder nodes edges := by
  have hlinks : (links edges').Perm (links edges) := (h.filterMap _).symm
  rw [evaluationOrder, evaluationOrder, Order.run_perm hlinks, Order.pending_perm hlinks]

/--
**The order of evaluation is right, complete and indifferent to the order of the edges.**

The nodes and the edges are arbitrary, but for the ends of the edges, which have to exist. There
may be parallel edges, edges from a node to itself, and ids that repeat.
-/
theorem evaluationOrder_exact
    (h : ∀ e ∈ edges, e.target < nodes.length ∧ e.source.Within nodes.length) :
    Ordered nodes edges := by
  have hin := links_inside_of_ends h
  have hlegal := Order.run_legal nodes.length (links edges)
  refine ⟨?_, countedOrder_eq hin, evaluationOrder_ok_iff hin, fun order horder => ?_,
    fun e he => evaluationOrder_stuck hin he, fun edges' hperm => evaluationOrder_perm hperm⟩
  · exact ⟨_, Order.loop_start hin, rfl, hlegal.nodup, hlegal.below⟩
  · obtain ⟨hlegal, hperm⟩ := evaluationOrder_ok horder
    refine ⟨hperm, fun e he i hs => ?_⟩
    have hl : (i, e.target) ∈ links edges := mem_links.mpr ⟨e, he, hs, rfl⟩
    have htarget := hperm.mem_iff.mpr (List.mem_range.mpr (h e he).1)
    exact hlegal.before _ hl htarget

end

/-- Nodes of which two feed each other, one of them itself as well, and one comes behind. -/
def knottedNodes : List Node :=
  [⟨"first", .bitOr⟩, ⟨"self", .self⟩, ⟨"second", .bitAnd⟩, ⟨"behind", .bitNot⟩, ⟨"free", .bitXor⟩]

/-- Their edges: `self` feeds `free` twice, and there is a constant. -/
def knottedEdges : List Edge :=
  [⟨.node 2, 0, .a⟩, ⟨.node 0, 2, .a⟩, ⟨.node 2, 2, .b⟩, ⟨.node 1, 0, .b⟩, ⟨.node 2, 3, .a⟩,
   ⟨.node 1, 4, .a⟩, ⟨.node 1, 4, .b⟩, ⟨.literal (.bool true), 4, .cond⟩]

theorem evaluationOrder_exact_knotted :
    (∀ e ∈ knottedEdges, e.target < knottedNodes.length ∧ e.source.Within knottedNodes.length)
      ∧ evaluationOrder knottedNodes knottedEdges = .error (.cycle ["first", "second", "behind"])
      ∧ Ordered knottedNodes knottedEdges := by
  have hends : ∀ e ∈ knottedEdges,
      e.target < knottedNodes.length ∧ e.source.Within knottedNodes.length := by
    simp [knottedEdges, knottedNodes, Source.Within]
  exact ⟨hends, rfl, evaluationOrder_exact hends⟩

end RuleWiring
