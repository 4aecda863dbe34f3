import Mathlib
import RuleWiring.Files.Tree
import RuleWiring.Proofs.FileNames
import RuleWiring.Proofs.Rows

/-!
# Files written one after the other

Some files are written into one directory. What a write does depends on where the directory leads
and on what is found there under the name, and neither is changed by a write under another name.
So if the names are pairwise distinct, what a write has put there is still there at the end, in
whatever order they are made. The answers do not even tell whether they are: a write under a name
that has just been written comes to the same as if nothing had been there.
-/

namespace RuleWiring

/-! ## Routes to the files of a directory -/

theorem Text.splitOn_of_not_mem {separator : Char} : ∀ {cs : List Char}, separator ∉ cs →
    splitOn separator cs = [cs]
  | [], _ => rfl
  | c :: cs, h => by
      rw [List.mem_cons, not_or] at h
      rw [splitOn, if_neg (Ne.symm h.1), splitOn_of_not_mem h.2]

namespace Route

/-- The steps along the names between slashes. -/
def stepsAlong (cs : List Char) : List Step :=
  (Text.splitOn '/' cs).filterMap fun name => Step.ofName? (String.ofList name)

/-- The route to a directory. -/
def toward (directory : String) : Route where
  fromRoot := directory.toList.head? = some '/'
  steps := stepsAlong directory.toList
  slash := false

/-- The route to a name in a directory. -/
def within (directory name : String) : Route :=
  { toward directory with steps := (toward directory).steps ++ [.into name] }

variable {directory name : String} {r : Route}

theorem stepsAlong_append (front back : List Char) :
    stepsAlong (front ++ '/' :: back) = stepsAlong front ++ stepsAlong back := by
  rw [stepsAlong, Text.splitOn_append, List.filterMap_append]
  rfl

theorem stepsAlong_plain (h : Plain name) : stepsAlong name.toList = [.into name] := by
  rw [stepsAlong, Text.splitOn_of_not_mem h.noSlash, List.filterMap_cons, String.ofList_toList,
    h.step]
  rfl

/-- A path in a directory is the directory, a slash if it needs one, and the name. -/
theorem exists_front (directory name : String) :
    ∃ front, (pathIn directory name).toList = front ++ name.toList
      ∧ front.head? = directory.toList.head?
      ∧ ∀ cs, stepsAlong (front ++ cs) = stepsAlong directory.toList ++ stepsAlong cs := by
  unfold pathIn
  split
  · rename_i hempty
    subst hempty
    exact ⟨[], rfl, rfl, fun cs => rfl⟩
  · rename_i hne
    have hne : directory.toList ≠ [] := by simpa using hne
    split
    · rename_i hslash
      -- the piece behind the last slash of the directory is empty, which makes it no step
      obtain ⟨front, hfront⟩ := List.getLast?_eq_some_iff.mp hslash
      refine ⟨directory.toList, String.toList_append, rfl, fun cs => ?_⟩
      rw [hfront, List.append_assoc, List.singleton_append, stepsAlong_append, stepsAlong_append,
        show stepsAlong [] = [] from rfl, List.append_nil]
    · refine ⟨directory.toList ++ ['/'], ?_, ?_, fun cs => ?_⟩
      · rw [String.toList_append, String.toList_append]
        rfl
      · exact List.head?_append_of_ne_nil _ hne
      · rw [List.append_assoc, List.singleton_append, stepsAlong_append]

/-- **The walk along a path** in a directory goes to the directory, and from there to the name. -/
theorem ofText_pathIn (hname : Plain name) (h : ofText (pathIn directory name) = .ok r) :
    r = within directory name := by
  obtain ⟨front, hpath, hhead, hsteps⟩ := exists_front directory name
  have hne : name.toList ≠ [] := by
    intro hnil
    have hstep := stepsAlong_plain hname
    rw [hnil] at hstep
    cases hstep
  have hroot : (front ++ name.toList).head? = some '/' ↔ directory.toList.head? = some '/' := by
    rw [List.head?_append, hhead]
    cases directory.toList.head? with
    | some c => rfl
    | none =>
        -- in the working directory the path begins with the name
        exact iff_of_false (fun h => hname.noSlash (List.mem_of_head? h)) (by simp)
  have hslash : (front ++ name.toList).getLast? ≠ some '/' := by
    rw [List.getLast?_append_of_ne_nil _ hne]
    exact fun hlast => hname.noSlash (List.mem_of_getLast? hlast)
  unfold ofText at h
  rw [hpath] at h
  split at h
  · cases h
  · split at h
    · cases h
    · split at h
      · cases h
      · cases h
        rw [within, toward, Route.mk.injEq]
        refine ⟨decide_eq_decide.mpr hroot, ?_, decide_eq_false hslash⟩
        rw [← stepsAlong_plain hname]
        exact hsteps _

end Route

namespace FileTree

open Route

variable {t : FileTree} {directory name name' s path : String} {p q next : FilePath}

/-! ## One file put into a tree -/

theorem contents?_put (t : FileTree) (p q : FilePath) (s : String) :
    (t.put p s).contents? q = if q = p then some s else t.contents? q := by
  have hkey : ∀ f : FilePath × String, (if f.1 = p then (p, s) else f).1 = f.1 := by
    intro f
    split
    · exact (‹f.1 = p›).symm
    · rfl
  rw [put]
  split
  · rename_i hfile
    rw [contents?, List.find?_map, Option.map_map]
    simp only [Function.comp_def, hkey]
    cases hfound : t.files.find? (·.1 = q) with
    | none =>
        have hne : q ≠ p := by
          rintro rfl
          rw [isFile, contents?, hfound] at hfile
          cases hfile
        rw [if_neg hne, contents?, hfound]
        rfl
    | some f =>
        have hq : f.1 = q := by simpa using List.find?_some hfound
        rw [contents?, hfound, Option.map_some, Option.map_some, hq]
        split <;> rfl
  · rename_i hfile
    have hnone : t.contents? p = none := Option.not_isSome_iff_eq_none.mp hfile
    rw [contents?, List.find?_append, Option.map_or, ← contents?]
    split
    · rename_i heq
      rw [heq, hnone]
      simp
    · rename_i hne
      simp [Ne.symm hne]

theorem isDirectory_put (t : FileTree) (p q : FilePath) (s : String) :
    (t.put p s).isDirectory q = t.isDirectory q := by
  unfold put
  split <;> rfl

theorem start_put (t : FileTree) (p : FilePath) (s : String) (r : Route) :
    (t.put p s).start r = t.start r := by
  unfold put
  split <;> rfl

theorem lookAt_put_self (t : FileTree) (p : FilePath) (s : String) :
    (t.put p s).lookAt p = .file p s := by
  rw [lookAt, contents?_put, if_pos rfl]

theorem lookAt_put_of_ne (h : q ≠ p) : (t.put p s).lookAt q = t.lookAt q := by
  rw [lookAt, lookAt, contents?_put, if_neg h, isDirectory_put]

theorem enter_ok_iff {step : Step} : t.enter q step = .ok next ↔
    t.step q step = .ok (.directory next) := by
  unfold enter
  split <;> simp_all

theorem step_into_put (h : q ++ [name] ≠ p) :
    (t.put p s).step q (.into name) = t.step q (.into name) := by
  rw [step, step, lookAt_put_of_ne h]

theorem lookAt_cases (t : FileTree) (p : FilePath) :
    (∃ s, t.lookAt p = .file p s) ∨ t.lookAt p = .directory p ∨ t.lookAt p = .vacancy p := by
  rw [lookAt]
  cases t.contents? p with
  | some s => exact .inl ⟨s, rfl⟩
  | none =>
      dsimp only
      split
      · exact .inr (.inl rfl)
      · exact .inr (.inr rfl)

/-- A step into a directory does not notice what is put where no directory is. -/
theorem enter_put {step : Step} (hput : ∀ q, t.lookAt p ≠ .directory q)
    (h : t.enter q step = .ok next) : (t.put p s).enter q step = .ok next := by
  rw [enter_ok_iff] at h ⊢
  cases step with
  | here | up => exact h
  | into name =>
      rw [step_into_put, h]
      -- what is entered is a directory, so it is not where the text is put
      rintro rfl
      rw [FileTree.step] at h
      split at h
      · cases h
      · exact hput next (Except.ok.inj h)

theorem foldlM_enter_put (hput : ∀ q, t.lookAt p ≠ .directory q) :
    ∀ {steps : List Step} {q next : FilePath}, steps.foldlM t.enter q = .ok next →
      steps.foldlM (t.put p s).enter q = .ok next
  | [], _, _, h => h
  | step :: steps, q, next, h => by
      rw [List.foldlM_cons] at h ⊢
      cases hstep : t.enter q step with
      | error e =>
          rw [hstep] at h
          cases h
      | ok between =>
          rw [hstep] at h
          rw [enter_put hput hstep]
          exact foldlM_enter_put hput h

/-! ## One file of a directory -/

/-- Where a directory leads. -/
def lead (t : FileTree) (directory : String) : Except FileFault FilePath :=
  (toward directory).steps.foldlM t.enter (t.start (toward directory))

theorem approach_within (t : FileTree) (directory name : String) :
    t.approach (within directory name) = t.lead directory := by
  rw [approach, within, List.dropLast_concat]
  rfl

theorem arrive_within (t : FileTree) (directory name : String) (p : FilePath) :
    t.arrive (within directory name) p = t.step p (.into name) := by
  rw [arrive, within, List.getLast?_concat]

theorem find_within (hlead : t.lead directory = .ok p)
    (hfits : name.utf8ByteSize ≤ Step.nameLimit) :
    t.find (within directory name) = .ok (t.lookAt (p ++ [name])) := by
  rw [FileTree.find, approach_within, hlead]
  dsimp only [Except.bind]
  rw [arrive_within, step, if_neg (Nat.not_lt.mpr hfits)]

/-- Writes a text at a path: the answer, and the tree behind it. -/
def save (t : FileTree) (path s : String) : Except FileFault String × FileTree :=
  match (Route.ofText path).bind fun r => t.write r s with
  | .ok t' => (.ok path, t')
  | .error e => (.error e, t)

theorem fst_save_cases (t : FileTree) (path s : String) :
    (t.save path s).1 = .ok path ∨ ∃ e, (t.save path s).1 = .error e := by
  unfold save
  split
  · exact .inl rfl
  · exact .inr ⟨_, rfl⟩

/-- All that writing a name in a directory can come to. -/
inductive Saved (t : FileTree) (directory name s : String) :
    Except FileFault String × FileTree → Prop where
  | failed (e : FileFault) : Saved t directory name s (.error e, t)
  /-- The text is put where the directory leads, unless there is a directory of the name. -/
  | done {p : FilePath} : Route.ofText (pathIn directory name) = .ok (within directory name) →
      t.lead directory = .ok p → name.utf8ByteSize ≤ Step.nameLimit →
      (∀ q, t.lookAt (p ++ [name]) ≠ .directory q) →
      Saved t directory name s (.ok (pathIn directory name), t.put (p ++ [name]) s)

theorem saved (t : FileTree) (directory s : String) (hname : Plain name) :
    Saved t directory name s (t.save (pathIn directory name) s) := by
  unfold save
  cases hroute : Route.ofText (pathIn directory name) with
  | error e => exact .failed e
  | ok r =>
      obtain rfl := ofText_pathIn hname hroute
      dsimp only [Except.bind]
      rw [write, approach_within]
      cases hlead : t.lead directory with
      | error e => exact .failed e
      | ok p =>
          dsimp only
          rw [if_neg (by simp [within, toward]), arrive_within, step]
          by_cases hlong : Step.nameLimit < name.utf8ByteSize
          · rw [if_pos hlong]
            exact .failed _
          · have hfits : name.utf8ByteSize ≤ Step.nameLimit := Nat.le_of_not_lt hlong
            rw [if_neg hlong]
            rcases t.lookAt_cases (p ++ [name]) with ⟨old, hfound⟩ | hfound | hfound
            · rw [hfound]
              exact .done hroute hlead hfits (by simp [hfound])
            · rw [hfound]
              exact .failed _
            · rw [hfound]
              exact .done hroute hlead hfits (by simp [hfound])

section Saved

variable {result : Except FileFault String × FileTree}

theorem Saved.lead (h : Saved t directory name s result) :
    result.2.lead directory = t.lead directory := by
  cases h with
  | failed => rfl
  | done _ hlead _ hfree =>
      rw [hlead, FileTree.lead, start_put]
      exact foldlM_enter_put hfree hlead

/-- **Another name leads where it led.** -/
theorem Saved.find (h : Saved t directory name s result) (hne : name' ≠ name) :
    result.2.find (within directory name') = t.find (within directory name') := by
  have hlead := h.lead
  cases h with
  | failed => rfl
  | @done p _ hplace _ _ =>
      have hstep : (t.put (p ++ [name]) s).step p (.into name') = t.step p (.into name') :=
        step_into_put fun heq => hne (by simpa using heq)
      unfold FileTree.find
      rw [approach_within, approach_within, hlead, hplace]
      dsimp only [Except.bind]
      rw [arrive_within, arrive_within, hstep]

/-- What a write has put there is found. -/
theorem Saved.found (h : Saved t directory name s result) (hpath : result.1 = .ok path) :
    Route.ofText path = .ok (within directory name)
      ∧ ∃ p, result.2.find (within directory name) = .ok (.file p s) := by
  have hkept := h.lead
  cases h with
  | failed e => cases hpath
  | @done p hroute hplace hfits hfree =>
      obtain rfl := Except.ok.inj hpath
      refine ⟨hroute, p ++ [name], ?_⟩
      rw [find_within (hkept.trans hplace) hfits, lookAt_put_self]

end Saved

theorem readText_of_find (hroute : Route.ofText path = .ok (within directory name))
    (hfound : t.find (within directory name) = .ok (.file p s)) : t.readText path = .ok s := by
  rw [readText, hroute]
  dsimp only [Except.bind]
  rw [read, hfound]
  rfl

/-- What a write of a name answers, whatever the text. -/
def answer (t : FileTree) (directory name : String) : Except FileFault String :=
  (Route.ofText (pathIn directory name)).bind fun _ =>
    (t.find (within directory name)).bind fun
      | .directory _ => .error .directory
      | _ => .ok (pathIn directory name)

theorem fst_save (t : FileTree) (directory s : String) (hname : Plain name) :
    (t.save (pathIn directory name) s).1 = t.answer directory name := by
  unfold save answer
  cases hroute : Route.ofText (pathIn directory name) with
  | error e => rfl
  | ok r =>
      obtain rfl := ofText_pathIn hname hroute
      dsimp only [Except.bind]
      rw [write, FileTree.find]
      cases t.approach (within directory name) with
      | error e => rfl
      | ok p =>
          dsimp only [Except.bind]
          rw [if_neg (by simp [within, toward])]
          cases t.arrive (within directory name) p with
          | error e => rfl
          | ok found => cases found <;> rfl

/-- Where no directory of the name is, the name can be written. -/
theorem answer_of_free (hroute : Route.ofText (pathIn directory name) = .ok (within directory name))
    (hlead : t.lead directory = .ok p) (hfits : name.utf8ByteSize ≤ Step.nameLimit)
    (hfree : ∀ q, t.lookAt (p ++ [name]) ≠ .directory q) :
    t.answer directory name = .ok (pathIn directory name) := by
  rw [answer, hroute, find_within hlead hfits]
  dsimp only [Except.bind]
  rcases t.lookAt_cases (p ++ [name]) with ⟨old, hfound⟩ | hfound | hfound
  · rw [hfound]
  · exact absurd hfound (hfree _)
  · rw [hfound]

/-- **No write is noticed by the answers to others**, not even by those under the same name. -/
theorem Saved.answer {result : Except FileFault String × FileTree}
    (h : Saved t directory name s result) (name' : String) :
    result.2.answer directory name' = t.answer directory name' := by
  by_cases hname : name' = name
  · subst hname
    -- where nothing was there is a file now, and writing a file is answered like writing a new one
    have hkept := h.lead
    cases h with
    | failed => rfl
    | done hroute hplace hfits hfree =>
        rw [answer_of_free hroute hplace hfits hfree,
          answer_of_free hroute (hkept.trans hplace) hfits (by simp [lookAt_put_self])]
  · rw [FileTree.answer, FileTree.answer, h.find hname]

/-! ## All files of a directory -/

/-- Writes names with their texts in a directory, one after the other: the answers, and the tree
behind the last write. -/
def saveAll (directory : String) : List (String × String) → FileTree →
    List (Except FileFault String) × FileTree
  | [], t => ([], t)
  | f :: fs, t =>
      let first := t.save (pathIn directory f.1) f.2
      let later := saveAll directory fs first.2
      (first.1 :: later.1, later.2)

section Runs

variable {fs : List (String × String)}

/-- **Every answer is the one that the write would have had at first.** -/
theorem saveAll_answers {t₀ : FileTree} (hnames : ∀ f ∈ fs, Plain f.1)
    (h : ∀ name, t.answer directory name = t₀.answer directory name) :
    List.Forall₂ (fun f answer => answer = t₀.answer directory f.1) fs
      (saveAll directory fs t).1 := by
  induction fs generalizing t with
  | nil => exact .nil
  | cons f fs ih =>
      have hname : Plain f.1 := hnames f List.mem_cons_self
      have hrest : ∀ g ∈ fs, Plain g.1 := fun g hg => hnames g (List.mem_cons_of_mem f hg)
      have hfirst := saved t directory f.2 hname
      rw [saveAll]
      exact .cons ((fst_save t directory f.2 hname).trans (h f.1))
        (ih hrest fun name => (hfirst.answer name).trans (h name))

theorem find_saveAll (hnames : ∀ f ∈ fs, Plain f.1) (hname : name ∉ fs.map Prod.fst)
    (t : FileTree) :
    (saveAll directory fs t).2.find (within directory name) = t.find (within directory name) := by
  induction fs generalizing t with
  | nil => rfl
  | cons f fs ih =>
      rw [List.map_cons, List.mem_cons, not_or] at hname
      have hfirst := saved t directory f.2 (hnames f List.mem_cons_self)
      rw [saveAll]
      exact (ih (fun g hg => hnames g (List.mem_cons_of_mem f hg)) hname.2 _).trans
        (hfirst.find hname.1)

/-- **The last text written under a name can be read at the end.** -/
theorem readText_saveAll (hnames : ∀ f ∈ fs, Plain f.1) {k : Nat} {f : String × String}
    (hf : fs[k]? = some f) (hpath : (saveAll directory fs t).1[k]? = some (.ok path))
    (hlast : ∀ j g, k < j → fs[j]? = some g → g.1 ≠ f.1) :
    (saveAll directory fs t).2.readText path = .ok f.2 := by
  induction fs generalizing t k with
  | nil => cases hf
  | cons f' fs ih =>
      have hrest : ∀ g ∈ fs, Plain g.1 := fun g hg => hnames g (List.mem_cons_of_mem f' hg)
      have hfirst := saved t directory f'.2 (hnames f' List.mem_cons_self)
      rw [saveAll] at hpath ⊢
      cases k with
      | zero =>
          obtain rfl := Option.some.inj hf
          -- none of the later writes is under this name
          have hnew : f'.1 ∉ fs.map Prod.fst := by
            intro hmem
            obtain ⟨g, hg, hsame⟩ := List.mem_map.mp hmem
            obtain ⟨j, hj⟩ := List.mem_iff_getElem?.mp hg
            exact hlast (j + 1) g (Nat.succ_pos j) hj hsame
          obtain ⟨hroute, p, hfound⟩ := hfirst.found (Option.some.inj hpath)
          exact readText_of_find hroute ((find_saveAll hrest hnew _).trans hfound)
      | succ k =>
          refine ih hrest hf hpath fun j g hj hg => ?_
          exact hlast (j + 1) g (Nat.succ_lt_succ hj) hg

end Runs

end FileTree

end RuleWiring
