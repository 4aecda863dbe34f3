import Mathlib
import RuleWiring.Resolution.Basic

/-!
# Requests one after another

A resolver serves request after request. Each may make the cache read a table, and may give a
code to a pattern, which changes where the next request for this pattern is looked up. None of
this shows more of the tables than what they have for a code or an id. So two caches whose
tables answer alike serve any requests alike. What it is for two records to be alike is left
open: `R` stands for it.
-/

namespace RuleWiring

/-! ## Requests and replies -/

/-- A request for one of some patterns, or for an id with parameters of its own. -/
inductive Request (ι : Type) where
  | resolve (i : ι)
  | resolveId (id : String) (inline : Option ParameterOverrides)

/-- What is found for a pattern, or for an id. -/
inductive Reply where
  | resolution (r : Resolution)
  | record (params : ParameterRecord) (provenance : Provenance)
deriving DecidableEq, Repr

namespace Request

variable {ι : Type} [DecidableEq ι]

/-- The reply to a request, and the patterns afterwards: the one that was asked for has the code
it is to keep. -/
def serve (patterns : ι → Pattern) : Request ι → StateM TableCache (Reply × (ι → Pattern))
  | .resolve i => do
      let (r, p) ← Resolution.resolve (patterns i)
      pure (.resolution r, Function.update patterns i p)
  | .resolveId id inline => do
      let (params, provenance) ← Resolution.resolveId id inline
      pure (.record params provenance, patterns)

/-- The replies to some requests in turn, and the patterns after the last. -/
def serveAll : List (Request ι) → (ι → Pattern) → StateM TableCache (List Reply × (ι → Pattern))
  | [], patterns => pure ([], patterns)
  | q :: rest, patterns => do
      let (reply, patterns) ← q.serve patterns
      let (replies, patterns) ← serveAll rest patterns
      pure (reply :: replies, patterns)

end Request

/-! ## Replies that are alike -/

section Alike

variable (R : ParameterRecord → ParameterRecord → Prop)

/-- Resolutions that differ in their records at most, and these are alike. -/
structure Resolution.Alike (r r' : Resolution) : Prop where
  params : R r.params r'.params
  provenance : r.provenance = r'.provenance
  code : r.code = r'.code

inductive Reply.Alike : Reply → Reply → Prop where
  | resolution {r r' : Resolution} : r.Alike R r' → Alike (.resolution r) (.resolution r')
  | record {params params' : ParameterRecord} (provenance : Provenance) : R params params' →
      Alike (.record params provenance) (.record params' provenance)

/-- Replies that are alike one by one, with the same patterns in the end. -/
structure RepliesAlike {ι : Type} (x x' : List Reply × (ι → Pattern)) : Prop where
  replies : List.Forall₂ (Reply.Alike R) x.1 x'.1
  patterns : x.2 = x'.2

end Alike

theorem Reply.eq_of_alike {x x' : Reply} (h : Alike Eq x x') : x = x' := by
  cases h with
  | @resolution r r' h =>
      obtain ⟨params, provenance, code⟩ := r
      obtain ⟨hparams, hprovenance, hcode⟩ := h
      dsimp only at hparams hprovenance hcode
      rw [hparams, hprovenance, hcode]
  | record provenance h => rw [h]

theorem RepliesAlike.eq {ι : Type} {x x' : List Reply × (ι → Pattern)}
    (h : RepliesAlike Eq x x') : x = x' :=
  Prod.ext (List.forall₂_eq_eq_eq ▸ h.replies.imp fun _ _ => Reply.eq_of_alike) h.patterns

/-! ## Caches that answer alike -/

variable {R : ParameterRecord → ParameterRecord → Prop} {α β : Type}

/-- Caches whose tables have records for the same codes, which are alike, and the same codes for
the same ids. -/
structure TableCache.Mirrors (R : ParameterRecord → ParameterRecord → Prop)
    (c c' : TableCache) : Prop where
  params : ∀ code, Option.Rel R (c.paramsTable.get? code) (c'.paramsTable.get? code)
  bridge : ∀ id, c.bridgeTable.get? id = c'.bridgeTable.get? id

/-- Computations that have related results in caches that answer alike, and leave them so. -/
def Mirrored (R : ParameterRecord → ParameterRecord → Prop) (S : α → α → Prop)
    (m m' : StateM TableCache α) : Prop :=
  ∀ c c' : TableCache, c.Mirrors R c' → S (m c).1 (m' c').1 ∧ (m c).2.Mirrors R (m' c').2

namespace Mirrored

variable {S : α → α → Prop} {T : β → β → Prop}

theorem pure {x x' : α} (h : S x x') : Mirrored R S (pure x) (pure x') :=
  fun _ _ hc => ⟨h, hc⟩

theorem bind {m m' : StateM TableCache α} {k k' : α → StateM TableCache β}
    (hm : Mirrored R S m m') (hk : ∀ x x', S x x' → Mirrored R T (k x) (k' x')) :
    Mirrored R T (m >>= k) (m' >>= k') := by
  intro c c' hc
  obtain ⟨hx, hc⟩ := hm c c' hc
  exact hk _ _ hx _ _ hc

end Mirrored

/-- Looking something up reads a table, which is the same one afterwards. -/
theorem TableCache.lookupParams_mirrored (code : Exocode) :
    Mirrored R (Option.Rel R) (lookupParams code) (lookupParams code) :=
  fun _ _ h => ⟨h.params code, h.params, h.bridge⟩

theorem TableCache.lookupBridge_mirrored (id : String) :
    Mirrored R Eq (lookupBridge id) (lookupBridge id) :=
  fun _ _ h => ⟨h.bridge id, h.params, h.bridge⟩

/-! ## One request -/

namespace Resolution

theorem table?_mirrored (p : Pattern) : Mirrored R (Option.Rel R) (table? p) (table? p) := by
  unfold table?
  split
  · exact .pure .none
  · exact TableCache.lookupParams_mirrored _

/-- What the fallback finds: the same pattern and the same code, with records that are alike. -/
structure FallbackAlike (R : ParameterRecord → ParameterRecord → Prop)
    (x x' : Pattern × Option (Exocode × ParameterRecord)) : Prop where
  pattern : x.1 = x'.1
  found : Option.Rel (fun e e' => e.1 = e'.1 ∧ R e.2 e'.2) x.2 x'.2

theorem fallback_mirrored (p : Pattern) :
    Mirrored R (FallbackAlike R) (fallback p) (fallback p) := by
  unfold fallback
  refine .bind (TableCache.lookupBridge_mirrored p.id) ?_
  rintro bridged _ rfl
  cases bridged with
  | none => exact .pure ⟨rfl, .none⟩
  | some code =>
      refine .bind (TableCache.lookupParams_mirrored code) fun record record' hrecord => ?_
      cases hrecord with
      | none => exact .pure ⟨rfl, .none⟩
      | some h => exact .pure ⟨rfl, .some ⟨rfl, h⟩⟩

/-- **A pattern is resolved alike**, and the same code is written back onto it. -/
theorem resolve_mirrored (hR : ∀ r, R r r) (p : Pattern) :
    Mirrored R (fun x x' => x.1.Alike R x'.1 ∧ x.2 = x'.2) (resolve p) (resolve p) := by
  unfold resolve
  split
  · exact .pure ⟨⟨hR _, rfl, rfl⟩, rfl⟩
  · -- each place has something on both sides or on neither
    refine .bind (table?_mirrored p) fun record record' hrecord => ?_
    cases hrecord with
    | some h => exact .pure ⟨⟨h, rfl, rfl⟩, rfl⟩
    | none =>
        refine .bind (fallback_mirrored p) ?_
        rintro ⟨q, found⟩ ⟨q', found'⟩ ⟨hq, hfound⟩
        cases hq
        cases hfound with
        | none => exact .pure ⟨⟨hR _, rfl, rfl⟩, rfl⟩
        | @some e e' h =>
            obtain ⟨code, r⟩ := e
            obtain ⟨code', r'⟩ := e'
            obtain ⟨hcode, hr⟩ := h
            cases hcode
            exact .pure ⟨⟨hr, rfl, rfl⟩, rfl⟩

theorem resolveId_mirrored (hR : ∀ r, R r r) (id : String) (inline : Option ParameterOverrides) :
    Mirrored R (fun x x' => R x.1 x'.1 ∧ x.2 = x'.2) (resolveId id inline)
      (resolveId id inline) := by
  unfold resolveId
  refine .bind (resolve_mirrored hR _) ?_
  rintro ⟨r, _⟩ ⟨r', _⟩ ⟨hr, _⟩
  exact .pure ⟨hr.params, hr.provenance⟩

end Resolution

/-! ## All requests -/

namespace Request

variable {ι : Type} [DecidableEq ι]

theorem serve_mirrored (hR : ∀ r, R r r) (q : Request ι) (patterns : ι → Pattern) :
    Mirrored R (fun x x' => x.1.Alike R x'.1 ∧ x.2 = x'.2) (q.serve patterns)
      (q.serve patterns) := by
  cases q with
  | resolve i =>
      rw [serve]
      refine .bind (Resolution.resolve_mirrored hR _) ?_
      rintro ⟨r, p⟩ ⟨r', p'⟩ ⟨hr, hp⟩
      cases hp
      exact .pure ⟨.resolution hr, rfl⟩
  | resolveId id inline =>
      rw [serve]
      refine .bind (Resolution.resolveId_mirrored hR id inline) ?_
      rintro ⟨params, provenance⟩ ⟨params', provenance'⟩ ⟨hparams, hprovenance⟩
      cases hprovenance
      exact .pure ⟨.record provenance hparams, rfl⟩

/-- **Caches that answer alike serve any requests alike.** After each request the patterns are the
same on both sides, so that the next one is looked up in the same places. -/
theorem serveAll_mirrored (hR : ∀ r, R r r) : ∀ (requests : List (Request ι))
    (patterns : ι → Pattern), Mirrored R (RepliesAlike R) (serveAll requests patterns)
      (serveAll requests patterns)
  | [], _ => .pure ⟨.nil, rfl⟩
  | q :: rest, patterns => by
      refine .bind (serve_mirrored hR q patterns) ?_
      rintro ⟨reply, patterns⟩ ⟨reply', patterns'⟩ ⟨hreply, hpatterns⟩
      cases hpatterns
      refine .bind (serveAll_mirrored hR rest patterns) ?_
      rintro ⟨replies, patterns⟩ ⟨replies', patterns'⟩ ⟨hreplies, hpatterns⟩
      cases hpatterns
      exact .pure ⟨.cons hreply hreplies, rfl⟩

end Request

end RuleWiring
