import Mathlib
import RuleWiring.Proofs.Order

/-!
# The order is complete if there is no cycle

`Proofs.Order` shows that whatever has been visited was visited in time. Here is the other
half: as long as there is a node whose feeds have all been visited, one is queued. So the visits
come to an end only when each node that is left waits for another one that is left. That cannot
go on for ever, unless there is a cycle: the nodes left are those on a cycle and those behind one.

The same holds for the way to the output. A sweep from the end of a complete order meets every
node after all that it feeds, so it misses none that has a way to the target.
-/

namespace RuleWiring

/-- The place of a node behind some others is not among them. -/
theorem notMem_front {front back : List Nat} {v w : Nat} (hnd : (front ++ v :: back).Nodup)
    (hlt : (front ++ v :: back).idxOf v < (front ++ v :: back).idxOf w) : w ∉ front ++ [v] := by
  have hv : v ∉ front := fun hv =>
    List.disjoint_of_nodup_append hnd hv (List.mem_cons_self ..)
  rw [List.idxOf_append_of_notMem hv, List.idxOf_cons_self, Nat.add_zero] at hlt
  intro hw
  rcases List.mem_append.mp hw with hw | hw
  · rw [List.idxOf_append_of_mem hw] at hlt
    exact absurd (List.idxOf_lt_length_of_mem hw) (by omega)
  · rw [List.mem_singleton.mp hw, List.idxOf_append_of_notMem hv, List.idxOf_cons_self] at hlt
    omega

namespace Order

variable {n : Nat} {ls : List Link}

/-- Following links never leads back to where one started. -/
def Acyclic (ls : List Link) : Prop := ∀ v, ¬ Relation.TransGen (fun i j => (i, j) ∈ ls) v v

/-- Both ends of every link are nodes. -/
def Inside (n : Nat) (ls : List Link) : Prop := ∀ l ∈ ls, l.1 < n ∧ l.2 < n

/-! ## No node is forgotten -/

/-- A node that waits for nothing any more has been queued or visited. -/
def Caught (n : Nat) (ls : List Link) (queue done : List Nat) : Prop :=
  ∀ u, u < n → (∀ l ∈ ls, l.2 = u → l.1 ∈ done) → u ∈ queue ++ done

theorem caught_start (n : Nat) (ls : List Link) : Caught n ls (sources n ls) [] := by
  intro u hu hfed
  rw [List.append_nil]
  exact List.mem_filter.mpr ⟨List.mem_range.mpr hu, decide_eq_true (pending_eq_zero.mpr hfed)⟩

/-- A node that `v` feeds and that waits for nothing else is released by the visit to `v`. -/
theorem mem_released_of {done : List Nat} {u v : Nat} (hu : u < n) (hl : (v, u) ∈ ls)
    (hfed : ∀ l ∈ ls, l.2 = u → l.1 ∈ done) : u ∈ released n ls done v := by
  have htarget : u ∈ (ls.filter (·.1 = v)).map Prod.snd :=
    List.mem_map.mpr ⟨(v, u), List.mem_filter.mpr ⟨hl, decide_eq_true rfl⟩, rfl⟩
  have hsucc : u ∈ successors n ls v :=
    List.mem_filter.mpr ⟨List.mem_range.mpr hu, decide_eq_true htarget⟩
  exact List.mem_filter.mpr ⟨hsucc, decide_eq_true (pending_eq_zero.mpr hfed)⟩

theorem caught_visit {queue done : List Nat} {v : Nat} (h : Caught n ls (v :: queue) done) :
    Caught n ls (queue ++ released n ls (v :: done) v) (v :: done) := by
  intro u hu hfed
  by_cases hearly : ∀ l ∈ ls, l.2 = u → l.1 ∈ done
  · -- `u` waited for nothing even before the visit
    have hold := h u hu hearly
    simp only [List.mem_append, List.mem_cons] at hold ⊢
    tauto
  · -- what `u` still waited for was `v`
    push Not at hearly
    obtain ⟨l, hl, hlu, hdone⟩ := hearly
    have hlv : l.1 = v := (List.mem_cons.mp (hfed l hl hlu)).resolve_right hdone
    have hlink : (v, u) ∈ ls := by rwa [← hlv, ← hlu]
    exact List.mem_append_left _ (List.mem_append_right _ (mem_released_of hu hlink hfed))

/-- There are not more than `n` nodes to visit. -/
theorem length_le_of_visiting {queue done : List Nat} (h : Visiting n ls queue done) :
    queue.length + done.length ≤ n := by
  have hsub : queue ++ done ⊆ List.range n := fun v hv => List.mem_range.mpr (h.below v hv)
  have hle := (List.subperm_of_subset h.nodup hsub).length_le
  rwa [List.length_append, List.length_range] at hle

/-- With fuel for all nodes, the visits go on until the queue is empty. -/
theorem visit_caught : ∀ (fuel : Nat) {queue done : List Nat}, Visiting n ls queue done →
    Caught n ls queue done → n ≤ fuel + done.length → Caught n ls [] (visit n ls fuel queue done)
  | 0, queue, done, hv, hc, hfuel => by
      -- all nodes have been visited, so there is none left to be queued
      have hle := length_le_of_visiting hv
      have hempty : queue = [] := List.length_eq_zero_iff.mp (by omega)
      rw [hempty] at hc
      exact hc
  | _ + 1, [], _, _, hc, _ => hc
  | fuel + 1, v :: queue, done, hv, hc, hfuel => by
      rw [visit]
      refine visit_caught fuel (visiting_visit hv) (caught_visit hc) ?_
      rw [List.length_cons]
      omega

/-- A node all of whose feeds stand in the order stands there itself. -/
theorem run_caught (n : Nat) (ls : List Link) {u : Nat} (hu : u < n)
    (hfed : ∀ l ∈ ls, l.2 = u → l.1 ∈ run n ls) : u ∈ run n ls := by
  have hc := visit_caught n (visiting_start n ls) (caught_start n ls) (by simp)
  have hmem := hc u hu fun l hl hlu => List.mem_reverse.mp (hfed l hl hlu)
  exact List.mem_reverse.mpr hmem

/-! ## Cycles -/

/-- A node on a cycle or behind one. -/
def Tangled (ls : List Link) (v : Nat) : Prop :=
  ∃ c, Relation.TransGen (fun i j => (i, j) ∈ ls) c c
    ∧ Relation.ReflTransGen (fun i j => (i, j) ∈ ls) c v

theorem Tangled.step {u v : Nat} (h : Tangled ls u) (hl : (u, v) ∈ ls) : Tangled ls v := by
  obtain ⟨c, hc, hcu⟩ := h
  exact ⟨c, hc, hcu.tail hl⟩

theorem Acyclic.not_tangled (h : Acyclic ls) (v : Nat) : ¬ Tangled ls v :=
  fun ⟨c, hc, _⟩ => h c hc

/-- Going back along the links from nodes that are not tangled comes to an end: no such node is
met twice, and there are only `n`. -/
theorem wellFounded_untangled (n : Nat) (ls : List Link) : WellFounded fun i j : Fin n =>
    Relation.TransGen (fun i j => (i, j) ∈ ls) (i : Nat) j ∧ ¬ Tangled ls j := by
  have : IsTrans (Fin n) fun i j =>
      Relation.TransGen (fun i j => (i, j) ∈ ls) (i : Nat) j ∧ ¬ Tangled ls j :=
    ⟨fun _ _ _ hij hjk => ⟨hij.1.trans hjk.1, hjk.2⟩⟩
  have : Std.Irrefl fun i j : Fin n =>
      Relation.TransGen (fun i j => (i, j) ∈ ls) (i : Nat) j ∧ ¬ Tangled ls j :=
    ⟨fun i hi => hi.2 ⟨i, hi.1, .refl⟩⟩
  exact Finite.wellFounded_of_trans_of_irrefl _

/-- **A node that is not tangled is visited.** The induction is along the links. -/
theorem mem_run_of_not_tangled (hin : Inside n ls) {u : Nat} (hu : u < n) (h : ¬ Tangled ls u) :
    u ∈ run n ls := by
  have hall : ∀ i : Fin n, ¬ Tangled ls i → (i : Nat) ∈ run n ls := by
    intro i
    induction i using (wellFounded_untangled n ls).induction with
    | _ i ih =>
      intro hi
      refine run_caught n ls i.isLt fun l hl hli => ?_
      have hlink : (l.1, (i : Nat)) ∈ ls := by rwa [← hli]
      exact ih ⟨l.1, (hin l hl).1⟩ ⟨.single hlink, hi⟩ fun ht => hi (ht.step hlink)
  exact hall ⟨u, hu⟩ h

/-- What feeds a node of a legal order stands in it, too. -/
theorem Legal.mem {order : List Nat} (h : Legal n ls order) {u v : Nat} (hl : (u, v) ∈ ls)
    (hv : v ∈ order) : u ∈ order := by
  have hlt := h.before (u, v) hl hv
  have hlen := List.idxOf_lt_length_of_mem hv
  exact List.idxOf_lt_length_iff.mp (Nat.lt_trans hlt hlen)

/-- In a legal order every way leads to a later place. -/
theorem idxOf_lt_of_transGen {order : List Nat} (h : Legal n ls order) {i j : Nat}
    (hij : Relation.TransGen (fun i j => (i, j) ∈ ls) i j) (hj : j ∈ order) :
    order.idxOf i < order.idxOf j := by
  induction hij with
  | single hab => exact h.before _ hab hj
  | tail _ hbc ih => exact Nat.lt_trans (ih (h.mem hbc hj)) (h.before _ hbc hj)

/-- No tangled node stands in a legal order. -/
theorem Legal.not_tangled {order : List Nat} (h : Legal n ls order) {v : Nat} (hv : v ∈ order) :
    ¬ Tangled ls v := by
  rintro ⟨c, hc, hcv⟩
  have hmem : c ∈ order := by
    induction hcv with
    | refl => exact hv
    | tail _ hbc ih => exact ih (h.mem hbc hv)
  exact Nat.lt_irrefl _ (idxOf_lt_of_transGen h hc hmem)

/-- **The nodes left out are those on a cycle or behind one.** -/
theorem mem_run_iff (hin : Inside n ls) {v : Nat} (hv : v < n) : v ∈ run n ls ↔ ¬ Tangled ls v :=
  ⟨(run_legal n ls).not_tangled, mem_run_of_not_tangled hin hv⟩

theorem acyclic_of_complete {order : List Nat} (h : Legal n ls order)
    (hall : ∀ v, v < n → v ∈ order) (hin : Inside n ls) : Acyclic ls := by
  intro v hv
  obtain ⟨u, _, hl⟩ := Relation.TransGen.tail'_iff.mp hv
  exact h.not_tangled (hall v (hin (u, v) hl).2) ⟨v, hv, .refl⟩

/-! ## The way to a node -/

theorem reaching_cons (ls : List Link) (target v : Nat) (order : List Nat) :
    reaching ls target (v :: order)
      = if v = target ∨ ls.any (fun l => l.1 = v ∧ l.2 ∈ reaching ls target order)
        then v :: reaching ls target order else reaching ls target order := rfl

theorem mem_reaching_append {target v : Nat} {order : List Nat}
    (h : v ∈ reaching ls target order) : ∀ front, v ∈ reaching ls target (front ++ order)
  | [] => h
  | w :: front => by
      rw [List.cons_append, reaching_cons]
      split
      · exact List.mem_cons_of_mem _ (mem_reaching_append h front)
      · exact mem_reaching_append h front

/-- What is not in front has been collected behind. -/
theorem mem_reaching_of_append {target v : Nat} {order : List Nat} :
    ∀ front, v ∉ front → v ∈ reaching ls target (front ++ order) → v ∈ reaching ls target order
  | [], _, h => h
  | w :: front, hv, h => by
      rw [List.mem_cons, not_or] at hv
      rw [List.cons_append, reaching_cons] at h
      split at h
      · exact mem_reaching_of_append front hv.2 ((List.mem_cons.mp h).resolve_left hv.1)
      · exact mem_reaching_of_append front hv.2 h

theorem mem_reaching_cons {target v : Nat} {order : List Nat}
    (h : v = target ∨ ∃ w, (v, w) ∈ ls ∧ w ∈ reaching ls target order) :
    v ∈ reaching ls target (v :: order) := by
  rw [reaching_cons, if_pos]
  · exact List.mem_cons_self ..
  · refine h.imp_right fun ⟨w, hl, hw⟩ => ?_
    exact List.any_eq_true.mpr ⟨(v, w), hl, decide_eq_true ⟨rfl, hw⟩⟩

/-- **The sweep misses nothing.** A node on the way to the target stands before the next one, so
the next one has been collected when the sweep comes to it. -/
theorem mem_reaching {order : List Nat} (h : Legal n ls order) (hall : ∀ v, v < n → v ∈ order)
    (hin : Inside n ls) {target v : Nat} (ht : target < n)
    (hv : Relation.ReflTransGen (fun i j => (i, j) ∈ ls) v target) :
    v ∈ reaching ls target order := by
  induction hv using Relation.ReflTransGen.head_induction_on with
  | refl =>
      obtain ⟨front, back, horder⟩ := List.append_of_mem (hall target ht)
      rw [horder]
      exact mem_reaching_append (mem_reaching_cons (Or.inl rfl)) front
  | @head v w hl _ ih =>
      obtain ⟨front, back, horder⟩ := List.append_of_mem (hall v (hin (v, w) hl).1)
      have hlt := h.before (v, w) hl (hall w (hin (v, w) hl).2)
      have hnd := h.nodup
      rw [horder] at hlt hnd ih ⊢
      have hw : w ∈ reaching ls target back := by
        refine mem_reaching_of_append (front ++ [v]) (notMem_front hnd hlt) ?_
        rwa [List.append_assoc, List.singleton_append]
      exact mem_reaching_append (mem_reaching_cons (Or.inr ⟨w, hl, hw⟩)) front

end Order

/-! ## The order of a diagram's nodes -/

theorem evaluationOrder_ok_iff {nodes : List Node} {edges : List Edge}
    (hin : Order.Inside nodes.length (links edges)) :
    (∃ order, evaluationOrder nodes edges = .ok order) ↔ Order.Acyclic (links edges) := by
  constructor
  · rintro ⟨order, horder⟩
    obtain ⟨hlegal, hperm⟩ := evaluationOrder_ok horder
    exact Order.acyclic_of_complete hlegal
      (fun v hv => hperm.mem_iff.mpr (List.mem_range.mpr hv)) hin
  · intro hacyclic
    have hlegal := Order.run_legal nodes.length (links edges)
    have hperm : (Order.run nodes.length (links edges)).Perm (List.range nodes.length) := by
      refine (List.perm_ext_iff_of_nodup hlegal.nodup List.nodup_range).mpr fun v => ?_
      rw [List.mem_range]
      exact ⟨hlegal.below v, fun hv => (Order.mem_run_iff hin hv).mpr (hacyclic.not_tangled v)⟩
    have hlen := hperm.length_eq
    rw [List.length_range] at hlen
    exact ⟨_, by rw [evaluationOrder]; exact if_pos hlen⟩

/-- The only error of the ordering is a cycle. -/
theorem evaluationOrder_error {nodes : List Node} {edges : List Edge} {e : StructuralError}
    (h : evaluationOrder nodes edges = .error e) : ∃ ids, e = .cycle ids :=
  ⟨_, cycle_of_evaluationOrder_error h⟩

end RuleWiring
