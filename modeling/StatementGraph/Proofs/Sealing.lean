import StatementGraph.Proofs.Enlarging
import StatementGraph.Proofs.Reviving

namespace StatementGraph

/-- What a signature covers: the name at the time, and whether the name was lost since. -/
structure Seal where
  name : Option Identifier
  lost : Bool := false

def Seal.Covers (s : Seal) (name : Option Identifier) : Prop :=
  name = s.name ∨ name = none ∧ s.lost = true

abbrev Ledger := Table StatementId Seal

namespace Ledger

variable {l : Ledger} {x y : StatementId} {name : Option Identifier}

def sign (l : Ledger) (x : StatementId) (name : Option Identifier) : Ledger := l.insert x { name }

/-- A statement is back without its name. -/
def lose (l : Ledger) (x : StatementId) : Ledger :=
  match l.get? x with
  | some s => l.insert x { s with lost := true }
  | none => l

def Covers (l : Ledger) (x : StatementId) (name : Option Identifier) : Prop :=
  ∃ s, l.get? x = some s ∧ s.Covers name

theorem covers_sign : (l.sign x name).Covers x name :=
  ⟨{ name }, Table.get?_insert_self _ _ _, Or.inl rfl⟩

theorem Covers.sign (h : l.Covers y name) (hne : y ≠ x) {name' : Option Identifier} :
    (l.sign x name').Covers y name := by
  obtain ⟨s, hs, hcovers⟩ := h
  exact ⟨s, (Table.get?_insert_ne _ hne _).trans hs, hcovers⟩

theorem get?_lose : (l.lose x).get? y =
    (l.get? y).map fun s => if y = x then { s with lost := true } else s := by
  rw [lose]
  by_cases hy : y = x
  · subst hy
    cases hs : l.get? y with
    | none => simp [hs]
    | some s => simp
  · cases hs : l.get? x with
    | none => simp [hy]
    | some s => simp [hy, Table.get?_insert_ne]

theorem Covers.lose (h : l.Covers y name) : (l.lose x).Covers y name := by
  obtain ⟨s, hs, hcovers⟩ := h
  rw [Covers, get?_lose, hs]
  by_cases hy : y = x
  · exact ⟨{ s with lost := true }, by simp [hy], hcovers.imp_right fun h => ⟨h.1, rfl⟩⟩
  · exact ⟨s, by simp [hy], hcovers⟩

theorem Covers.lost (h : l.Covers x name) : (l.lose x).Covers x none := by
  obtain ⟨s, hs, -⟩ := h
  rw [Covers, get?_lose, hs]
  exact ⟨{ s with lost := true }, by simp, Or.inr ⟨rfl, rfl⟩⟩

def loseAll (l : Ledger) (ids : List StatementId) : Ledger := ids.foldl lose l

theorem Covers.loseAll {ids : List StatementId} (h : l.Covers y name) :
    (l.loseAll ids).Covers y name := by
  induction ids generalizing l with
  | nil => exact h
  | cons x rest ih => exact ih h.lose

theorem Covers.lostAmong {ids : List StatementId} (h : l.Covers x name) (hx : x ∈ ids) :
    (l.loseAll ids).Covers x none := by
  induction ids generalizing l with
  | nil => cases hx
  | cons y rest ih =>
    rcases List.mem_cons.1 hx with rfl | hx
    · exact h.lost.loseAll
    · exact ih h.lose hx

end Ledger

theorem Deleted.Dormant.of_subset {A A' : Allocator} {G G' : Graph} {d : Deleted}
    (h : d.Dormant A G) (hA : ∀ x, A.Past x → A'.Past x)
    (hG : ∀ x c, G' x = some c → G x = some c ∨ x ∉ d.ids) : d.Dormant A' G' where
  dead x hx := by
    apply Option.eq_none_iff_forall_ne_some.2
    intro c hc
    rcases hG x c hc with hc | hout
    · rw [h.dead x hx] at hc
      cases hc
    · exact hout hx
  past x hx := hA x (h.past x hx)
  apart := h.apart
  listed := h.listed
  authority := h.authority

def Records.nameOf (r : Records) (x : StatementId) : Option Identifier :=
  (r.statements x).bind Statement.identifier

namespace Ledger

variable {l : Ledger} {A A' : Allocator} {r r' : Records} {B B' : List DeletionBatch}
  {x : StatementId}

/-- Every valid signature is covered, also those that are kept in batches. -/
structure Vouches (l : Ledger) (A : Allocator) (r : Records) (B : List DeletionBatch) : Prop where
  paired : r.graph.Paired
  past : ∀ x c, r.graph x = some c → A.Past x
  live : ∀ x a, r.authorities x = some a → ∃ c, r.graph x = some c
  covers : ∀ x a, r.authorities x = some a → a.valid = true → l.Covers x (r.nameOf x)
  dormant : ∀ d ∈ B.flatten, d.Dormant A r.graph
  apart : B.flatten.Pairwise Deleted.Apart
  kept : ∀ d ∈ B.flatten, ∀ a, d.authority = some a → a.valid = true →
    l.Covers d.statement.id d.statement.identifier

theorem vouches_empty : Vouches {} A ⟨fun _ => none, fun _ => none⟩ [] :=
  ⟨Graph.paired_empty, fun _ _ hx => (by cases hx), fun _ _ hx => (by cases hx),
    fun _ _ hx => (by cases hx), fun _ hd => (by cases hd), .nil, fun _ hd => by cases hd⟩

theorem Vouches.fewer (h : l.Vouches A r B) (hB : B'.Subperm B) : l.Vouches A r B' := by
  obtain ⟨B₁, hperm, hsub⟩ := hB
  have hmem (d : Deleted) (hd : d ∈ B'.flatten) : d ∈ B.flatten :=
    hsub.flatten.subset (hperm.flatten.mem_iff.2 hd)
  refine { h with
    dormant := fun d hd => h.dormant d (hmem d hd)
    apart := ?_
    kept := fun d hd => h.kept d (hmem d hd) }
  exact hperm.flatten.pairwise (h.apart.sublist hsub.flatten) Deleted.Apart.symm

theorem Vouches.congr (h : l.Vouches A r B) (hgraph : r'.graph = r.graph)
    (hnames : ∀ x, r'.nameOf x = r.nameOf x) (hauthorities : r'.authorities = r.authorities) :
    l.Vouches A r' B where
  paired := hgraph ▸ h.paired
  past := hgraph ▸ h.past
  live := hauthorities ▸ hgraph ▸ h.live
  covers x a ha := by
    rw [hnames]
    exact h.covers x a (hauthorities ▸ ha)
  dormant := hgraph ▸ h.dormant
  apart := h.apart
  kept := h.kept

theorem Vouches.reflagged {s s' : Store} (h : l.Vouches A s.records B) (hr : s.Reflagged s') :
    l.Vouches A s'.records B :=
  h.congr hr.graph hr.names (funext fun x => congrArg (Table.get? · x) hr.authorities)

theorem Vouches.counter (h : l.Vouches A r B) (hA : ∀ x, A.Past x → A'.Past x) :
    l.Vouches A' r B :=
  { h with
    past := fun x c hx => hA x (h.past x c hx)
    dormant := fun d hd => (h.dormant d hd).of_subset hA fun _ _ hx => Or.inl hx }

end Ledger

namespace Engine

open Store Ledger

variable {t : TransactionId} {S e e' e'' : Engine} {x : StatementId} {st : Statement} {l : Ledger}
  {B : List DeletionBatch}

/-! ### Keeping names under signatures -/

/-- Whoever has a valid signature had it before, with the same name. -/
structure Upholds (t : TransactionId) (e e' : Engine) : Prop where
  evolves : Evolves t e e'
  past : ∀ x, e.store.allocator.Past x → e'.store.allocator.Past x
  grown : e.store.graph.Sub e'.store.graph
  new : ∀ x c, e'.store.graph x = some c → e.store.graph x = some c ∨
    ¬e.store.allocator.Past x ∧ e'.store.allocator.Past x
  paired : e.store.graph.Paired → e'.store.graph.Paired
  owned : e.store.graph.Owned → e'.store.graph.Owned
  live : ∀ x a, e'.store.authority? x = some a →
    (∃ a', e.store.authority? x = some a') ∨ ∃ c, e'.store.graph x = some c
  signed : ∀ x a, e'.store.authority? x = some a → a.valid = true →
    ∃ a', e.store.authority? x = some a' ∧ a'.valid = true ∧ e'.store.nameOf x = e.store.nameOf x

theorem Upholds.trans (h : Upholds t e e') (h' : Upholds t e' e'') : Upholds t e e'' where
  evolves := h.evolves.trans h'.evolves
  past x hx := h'.past x (h.past x hx)
  grown := h.grown.trans h'.grown
  new x c hx := by
    rcases h'.new x c hx with hx | ⟨hnew, hpast⟩
    · exact (h.new x c hx).imp_right fun ⟨hnew, hpast⟩ => ⟨hnew, h'.past x hpast⟩
    · exact Or.inr ⟨fun hold => hnew (h.past x hold), hpast⟩
  paired hp := h'.paired (h.paired hp)
  owned ho := h'.owned (h.owned ho)
  live x a ha := by
    rcases h'.live x a ha with ⟨a', ha'⟩ | hlive
    · exact (h.live x a' ha').imp_right fun ⟨c, hc⟩ => ⟨c, h'.grown x c hc⟩
    · exact Or.inr hlive
  signed x a ha hvalid := by
    obtain ⟨a', ha', hvalid', hname'⟩ := h'.signed x a ha hvalid
    obtain ⟨a'', ha'', hvalid'', hname''⟩ := h.signed x a' ha' hvalid'
    exact ⟨a'', ha'', hvalid'', hname'.trans hname''⟩

theorem upholds_of_reflagged (he : Evolves t e e') (hr : e.store.Reflagged e'.store) :
    Upholds t e e' where
  evolves := he
  past x hx := hr.allocator ▸ hx
  grown := hr.graph ▸ .refl _
  new x c hx := Or.inl (hr.graph ▸ hx)
  paired hp := hr.graph ▸ hp
  owned ho := hr.graph ▸ ho
  live x a ha := by
    rw [authority?, hr.authorities] at ha
    exact Or.inl ⟨a, ha⟩
  signed x a ha hvalid := by
    rw [authority?, hr.authorities] at ha
    exact ⟨a, ha, hvalid, hr.names x⟩

instance isPreorder_upholds : IsPreorder Engine (Upholds t) where
  refl e := upholds_of_reflagged (.refl t e) (.refl _)
  trans _ _ _ h h' := h.trans h'

theorem upholds_of_store (he : Evolves t e e') (hstore : e'.store = e.store) : Upholds t e e' :=
  upholds_of_reflagged he (hstore ▸ .refl _)

theorem upholds_notify {event : Event} : Upholds t e (e.notify t event) :=
  upholds_of_store evolves_notify store_notify

theorem upholds_lock : Within (Upholds t) e (lock t x) := by
  have hlocks : Within (Locks t) e (lock t x) := locks_lock
  exact upholds_of_store hlocks.evolves hlocks.store

theorem upholds_setAuthority {b : Option Authority}
    (hlive : ∀ a, b = some a →
      (∃ a', e.store.authority? x = some a') ∨ ∃ c, e.store.graph x = some c)
    (hvalid : ∀ a, b = some a → a.valid = true →
      ∃ a', e.store.authority? x = some a' ∧ a'.valid = true) :
    Upholds t e (e.setAuthority t x b) := by
  have hcases {y : StatementId} {a : Authority}
      (ha : (e.setAuthority t x b).store.authority? y = some a) :
      y = x ∧ b = some a ∨ e.store.authority? y = some a := by
    rw [store_setAuthority, authority?_setAuthority] at ha
    split at ha
    case isTrue hy => exact Or.inl ⟨hy, ha⟩
    case isFalse => exact Or.inr ha
  refine ⟨evolves_setAuthority, ?_, ?_, ?_, ?_, ?_, fun y a ha => ?_, fun y a ha hv => ?_⟩
  · rw [store_setAuthority]
    exact fun _ hx => hx
  · rw [store_setAuthority]
    exact .refl _
  · rw [store_setAuthority]
    exact fun _ _ hx => Or.inl hx
  · rw [store_setAuthority]
    exact id
  · rw [store_setAuthority]
    exact id
  · rcases hcases ha with ⟨rfl, hb⟩ | ha
    · rw [store_setAuthority]
      exact hlive a hb
    · exact Or.inl ⟨a, ha⟩
  · rw [store_setAuthority]
    rcases hcases ha with ⟨rfl, hb⟩ | ha
    · obtain ⟨a', ha', hv'⟩ := hvalid a hb hv
      exact ⟨a', ha', hv', rfl⟩
    · exact ⟨a, ha, hv, rfl⟩

/-- A statement without a valid signature may be renamed. -/
theorem upholds_rename {name : Option Identifier} (hst : e.store.get? x = some st) (hid : st.id = x)
    (hunsigned : ∀ a, e.store.authority? x = some a → a.valid = false)
    (hnamed : e.store.Named → (e.store.write { st with identifier := name }).Named) :
    Upholds t e (e.put t { st with identifier := name }) := by
  obtain ⟨hgraph, hallocator, hauthorities, hnames⟩ := @put_name_fields t e x st name hst hid
  refine ⟨evolves_put hnamed, ?_, hgraph ▸ .refl _, ?_, ?_, ?_, fun y a ha => ?_,
    fun y a ha hv => ?_⟩
  · rw [hallocator]
    exact fun _ hx => hx
  · rw [hgraph]
    exact fun _ _ hx => Or.inl hx
  · rw [hgraph]
    exact id
  · rw [hgraph]
    exact id
  · rw [authority?, hauthorities] at ha
    exact Or.inl ⟨a, ha⟩
  · rw [authority?, hauthorities] at ha
    have hne : y ≠ x := by
      rintro rfl
      cases hv.symm.trans (hunsigned a ha)
    exact ⟨a, ha, hv, hnames y hne⟩

theorem upholds_guardSigned {force : Bool} : Within (Upholds t) e (guardSigned t x force) := by
  apply within_get_bind
  split
  case h_1 a ha =>
    split
    · split
      · refine within_set (upholds_setAuthority (fun _ _ => Or.inl ⟨a, ha⟩) fun b hb hvalid => ?_)
        cases hb
        cases hvalid
      · exact within_throw
    · exact within_pure
  case h_2 => exact within_pure

/-- Once a signature has been given up, or there was none, the statement may be renamed. -/
theorem guardSigned_unsigned {force : Bool} {u : Unit}
    (h : (guardSigned t x force).perform e = (.ok u, e')) {a : Authority}
    (ha : e'.store.authority? x = some a) : a.valid = false := by
  rw [guardSigned, perform_get_bind] at h
  split at h
  case h_1 b hb =>
    split at h
    · split at h
      · cases h
        rw [store_setAuthority, authority?_setAuthority, if_pos rfl] at ha
        cases ha
        rfl
      · cases h
    · rename_i hinvalid
      cases h
      cases hb.symm.trans ha
      exact Bool.eq_false_iff.2 hinvalid
  case h_2 hnone =>
    cases h
    cases hnone.symm.trans ha

theorem upholds_guard_bind {force : Bool} {β : Type} {k : Unit → Action β}
    (hst : e.store.get? x = some st)
    (hk : ∀ e', e'.store.get? x = some st → e'.store.index = e.store.index →
      (∀ a, e'.store.authority? x = some a → a.valid = false) → Within (Upholds t) e' (k ())) :
    Within (Upholds t) e (guardSigned t x force >>= k) := by
  have hfields := guardSigned_fields (t := t) e x force
  apply within_bind upholds_guardSigned
  intro _ e' hrun
  rw [hrun] at hfields
  apply hk e' _ hfields.2 fun a => guardSigned_unsigned hrun
  rw [get?, hfields.1]
  exact hst

theorem upholds_identify {name : Identifier} {force : Bool} (hi : e.store.Indexed) :
    Within (Upholds t) e (identify t x name force) := by
  apply within_ensureOpen_bind
  apply within_get_bind
  apply within_lift_bind
  intro st hst
  have hid := hi.keyed x st (require_eq_ok.1 hst)
  apply within_bind upholds_lock
  intro _ e₁ hlock
  have hget := get?_lock hst hlock
  have hrename (hfree : ∀ y, e₁.store.lookupName st.owner name = some y → y = x) :
      Within (Upholds t) e₁ (guardSigned t x force >>= fun _ =>
        modify fun e => e.put t { st with identifier := some name }) := by
    apply upholds_guard_bind hget
    intro e₂ hget hindex hunsigned
    refine within_modify (upholds_rename hget hid hunsigned fun hn => hn.write_named rfl ?_)
    intro y hy
    rw [lookupName, hindex] at hy
    exact (hfree y hy).trans hid.symm
  dsimp only
  split
  · exact within_pure
  · apply within_get_bind
    split
    case h_1 existing hexisting =>
      split
      · exact within_throw
      · rename_i hsame
        apply hrename
        intro y hy
        cases hexisting.symm.trans hy
        exact not_not.1 hsame
    case h_2 hnone =>
      apply hrename
      intro y hy
      cases hnone.symm.trans hy

theorem upholds_unidentify {force : Bool} (hi : e.store.Indexed) :
    Within (Upholds t) e (unidentify t x force) := by
  apply within_ensureOpen_bind
  apply within_get_bind
  apply within_lift_bind
  intro st hst
  have hid := hi.keyed x st (require_eq_ok.1 hst)
  apply within_bind upholds_lock
  intro _ e₁ hlock
  have hget := get?_lock hst hlock
  split
  · exact within_throw
  · apply upholds_guard_bind hget
    intro e₂ hget _ hunsigned
    apply within_bind
    · exact within_modify (upholds_rename hget hid hunsigned fun hn => hn.write_unnamed rfl)
    · intro _ _ _
      exact within_pure

theorem upholds_createAuthority {author : String} :
    Within (Upholds t) e (createAuthority t x author) := by
  apply within_ensureOpen_bind
  apply within_get_bind
  apply within_lift_bind
  intro st hst
  apply within_bind upholds_lock
  intro _ e₁ hlock
  have hget := get?_lock hst hlock
  apply within_get_bind
  split
  · exact within_throw
  · apply within_bind
    · refine within_modify (Upholds.trans (upholds_setAuthority (fun _ _ => ?_) ?_) upholds_notify)
      · exact Or.inr ⟨st.content, graph_of_get? hget⟩
      · intro a ha hvalid
        cases ha
        cases hvalid
    · intro _ _ _
      exact within_pure

theorem upholds_deleteAuthority : Within (Upholds t) e (deleteAuthority t x) := by
  apply within_ensureOpen_bind
  apply within_bind upholds_lock
  intro _ e₁ _
  apply within_get_bind
  apply within_bind
  · exact within_modify (upholds_setAuthority (fun a ha => by cases ha) fun a ha => by cases ha)
  · intro _ e₂ _
    split
    · apply within_bind (within_modify upholds_notify)
      intro _ _ _
      exact within_pure
    · exact within_throw

theorem upholds_rebuild (hi : e.store.Indexed) : Within (Upholds t) e (rebuild t x) := by
  apply within_ensureOpen_bind
  apply within_get_bind
  apply within_lift_bind
  intro _ _
  apply within_get_bind
  apply within_bind
  · exact within_set (upholds_of_reflagged evolves_rederive (reflagged_rederive hi))
  · intro _ _ _
    exact within_pure

/-! ### Vouching -/

theorem Upholds.vouches (h : Upholds t e e')
    (hl : l.Vouches e.store.allocator e.store.records B) :
    l.Vouches e'.store.allocator e'.store.records B where
  paired := h.paired hl.paired
  past x c hx := by
    rcases h.new x c hx with hx | ⟨-, hpast⟩
    · exact h.past x (hl.past x c hx)
    · exact hpast
  live x a ha := by
    rcases h.live x a ha with ⟨a', ha'⟩ | hlive
    · obtain ⟨c, hc⟩ := hl.live x a' ha'
      exact ⟨c, h.grown x c hc⟩
    · exact hlive
  covers x a ha hvalid := by
    obtain ⟨a', ha', hvalid', hname⟩ := h.signed x a ha hvalid
    have hcovers := hl.covers x a' ha' hvalid'
    change l.Covers x (e'.store.nameOf x)
    rw [hname]
    exact hcovers
  dormant d hd := by
    refine (hl.dormant d hd).of_subset h.past fun x c hx => ?_
    exact (h.new x c hx).imp_right fun hnew hmem => hnew.1 ((hl.dormant d hd).past x hmem)
  apart := hl.apart
  kept := hl.kept

theorem Enlarged.upholds (h : Enlarged t S e)
    (hl : l.Vouches S.store.allocator S.store.records B) : Upholds t S e where
  evolves := h.evolves
  past := h.past
  grown := h.grown
  new x c hx := (h.new x c hx).imp_right fun hnew => ⟨hnew, h.live x c hx⟩
  paired _ := h.paired
  owned := h.owned
  live x a ha := by
    rw [authority?, h.authorities] at ha
    exact Or.inl ⟨a, ha⟩
  signed x a ha hvalid := by
    rw [authority?, h.authorities] at ha
    obtain ⟨c, hc⟩ := hl.live x a ha
    exact ⟨a, ha, hvalid, h.names x (hl.past x c hc)⟩

/-- Signing covers the name that the statement has. -/
theorem vouches_signed {a b : Authority} (hl : l.Vouches e.store.allocator e.store.records B)
    (ha : e.store.authority? x = some a) (hstore : e'.store = e.store.setAuthority x (some b)) :
    (l.sign x (e.store.nameOf x)).Vouches e'.store.allocator e'.store.records B := by
  have hcases {y : StatementId} {a' : Authority} (hy : e'.store.authority? y = some a') :
      y = x ∨ y ≠ x ∧ e.store.authority? y = some a' := by
    rw [hstore, authority?_setAuthority] at hy
    split at hy
    case isTrue hxy => exact Or.inl hxy
    case isFalse hne => exact Or.inr ⟨hne, hy⟩
  have hgraph : e'.store.records.graph = e.store.records.graph := by
    rw [hstore]
    rfl
  have hname : e'.store.nameOf = e.store.nameOf := by
    rw [hstore]
    rfl
  obtain ⟨c, hc⟩ := hl.live x a ha
  refine ⟨hgraph ▸ hl.paired, ?_, fun y a' hy => ?_, fun y a' hy hvalid => ?_, ?_, hl.apart,
    fun d hd a' ha' hvalid => (hl.kept d hd a' ha' hvalid).sign ?_⟩
  · rw [hgraph, hstore]
    exact hl.past
  · rw [hgraph]
    rcases hcases hy with rfl | ⟨-, hy⟩
    · exact ⟨c, hc⟩
    · exact hl.live y a' hy
  · change (l.sign x (e.store.nameOf x)).Covers y (e'.store.nameOf y)
    rw [hname]
    rcases hcases hy with rfl | ⟨hne, hy⟩
    · exact covers_sign
    · exact (hl.covers y a' hy hvalid).sign hne
  · rw [hgraph, hstore]
    exact hl.dormant
  · rintro rfl
    cases hc.symm.trans ((hl.dormant d hd).dead _ List.mem_cons_self)

theorem records_nameOf {s : Store} (h : s.get? x = some st) :
    s.records.nameOf x = st.identifier := by
  rw [Records.nameOf, records]
  dsimp only
  rw [h]
  rfl

/-- What a removal takes out is covered where it is kept. -/
theorem vouches_withdrawn {r : Removal} (ho : S.Orderly) (h : Removal.Withdraws t S r)
    (hl : l.Vouches S.store.allocator S.store.records B) :
    l.Vouches r.engine.store.allocator r.engine.store.records (B ++ [r.batch]) := by
  have hleft (x : StatementId) (c : Content) (hx : r.engine.store.graph x = some c) :
      S.store.graph x = some c := by
    obtain ⟨st, hst, rfl⟩ := graph_eq_some.1 hx
    exact graph_of_get? (h.strips.left x st hst).1
  have hlive (x : StatementId) (a : Authority) (ha : r.engine.store.authority? x = some a) :
      ∃ st, r.engine.store.get? x = some st := by
    obtain ⟨c, hc⟩ := hl.live x a (h.authority x a ha)
    obtain ⟨st, hst, -⟩ := graph_eq_some.1 hc
    apply Option.ne_none_iff_exists'.1
    intro hgone
    cases ha.symm.trans (h.strips.gone x st hst hgone)
  have hflat : (B ++ [r.batch]).flatten = B.flatten ++ r.batch := by
    rw [List.flatten_append, List.flatten_singleton]
  refine ⟨h.paired, fun x c hx => ?_, fun x a ha => ?_, fun x a ha hvalid => ?_, fun d hd => ?_, ?_,
    fun d hd a ha hvalid => ?_⟩
  · rw [h.allocator]
    exact hl.past x c (hleft x c hx)
  · obtain ⟨st, hst⟩ := hlive x a ha
    exact ⟨st.content, graph_of_get? hst⟩
  · obtain ⟨st, hst⟩ := hlive x a ha
    have hcovers := hl.covers x a (h.authority x a ha) hvalid
    rw [records_nameOf (h.strips.left x st hst).1] at hcovers
    rw [records_nameOf hst]
    exact hcovers
  · rw [h.allocator]
    rw [hflat] at hd
    rcases List.mem_append.1 hd with hd | hd
    · exact (hl.dormant d hd).of_subset (fun _ hx => hx) fun x c hx => Or.inl (hleft x c hx)
    · obtain ⟨hstart, hauthority⟩ := h.strips.kept d hd
      refine ⟨fun x hx => ?_, fun x hx => ?_, ho.apart _ _ hstart, h.listed d hd, fun a ha => ?_⟩
      · exact Option.map_eq_none_iff.2 (h.taken d hd x hx).1
      · obtain ⟨-, st, hst⟩ := h.taken d hd x hx
        exact hl.past x st.content (graph_of_get? hst)
      · exact ho.authority _ a (hauthority.symm.trans ha)
  · rw [hflat, List.pairwise_append]
    refine ⟨hl.apart, h.disjoint, fun d hd d' hd' x hx hx' => ?_⟩
    obtain ⟨-, st, hst⟩ := h.taken d' hd' x hx'
    cases (graph_of_get? hst).symm.trans ((hl.dormant d hd).dead x hx)
  · rw [hflat] at hd
    rcases List.mem_append.1 hd with hd | hd
    · exact hl.kept d hd a ha hvalid
    · obtain ⟨hstart, hauthority⟩ := h.strips.kept d hd
      have hcovers := hl.covers d.statement.id a (hauthority.symm.trans ha) hvalid
      rw [records_nameOf hstart] at hcovers
      exact hcovers

/-- What comes back has the name that was signed for, or its name is lost. -/
theorem vouches_revived {batch : DeletionBatch} {report : RestoreReport}
    (h : Revives t batch e report e')
    (hl : l.Vouches e.store.allocator e.store.records (batch :: B)) :
    (l.loseAll (report.unnamed.map Prod.fst)).Vouches e'.store.allocator e'.store.records B := by
  have hflat : (batch :: B).flatten = batch ++ B.flatten := List.flatten_cons
  have hmem (d : Deleted) (hd : d ∈ batch) : d ∈ (batch :: B).flatten :=
    hflat ▸ List.mem_append_left _ hd
  have hmem' (d : Deleted) (hd : d ∈ B.flatten) : d ∈ (batch :: B).flatten :=
    hflat ▸ List.mem_append_right _ hd
  have hapart := hl.apart
  rw [hflat, List.pairwise_append] at hapart
  obtain ⟨-, hapart, hcross⟩ := hapart
  refine ⟨h.paired, fun x c hx => ?_, fun x a ha => ?_, fun x a ha hvalid => ?_, fun d hd => ?_,
    hapart, fun d hd a ha hvalid => (hl.kept d (hmem' d hd) a ha hvalid).loseAll⟩
  · rw [h.allocator]
    rcases h.new x c hx with hx | ⟨d, hd, hx⟩
    · exact hl.past x c hx
    · exact (hl.dormant d (hmem d hd)).past x hx
  · rcases h.authority x a ha with ha | ⟨d, hd, -, -, hlive, -⟩
    · obtain ⟨c, hc⟩ := hl.live x a ha
      exact ⟨c, h.grown x c hc⟩
    · exact hlive
  · change (l.loseAll _).Covers x (e'.store.nameOf x)
    rcases h.authority x a ha with ha | ⟨d, hd, rfl, hkept, -, hname | ⟨hnone, hlost⟩⟩
    · obtain ⟨c, hc⟩ := hl.live x a ha
      have hout (d : Deleted) (hd : d ∈ batch) : x ∉ d.ids := by
        intro hx
        cases hc.symm.trans ((hl.dormant d (hmem d hd)).dead x hx)
      rw [h.names x hout]
      exact Covers.loseAll (hl.covers x a ha hvalid)
    · rw [hname]
      exact (hl.kept d (hmem d hd) a hkept hvalid).loseAll
    · rw [hnone]
      exact (hl.kept d (hmem d hd) a hkept hvalid).lostAmong hlost
  · rw [h.allocator]
    refine (hl.dormant d (hmem' d hd)).of_subset (fun _ hx => hx) fun x c hx => ?_
    exact (h.new x c hx).imp_right fun ⟨d', hd', hx'⟩ hx => hcross d' hd' d hd hx' hx

end Engine

end StatementGraph
