import StatementGraph.Proofs.Nameless
import StatementGraph.Proofs.Tables

namespace StatementGraph

namespace Nameless

variable {m image : Nameless} {n c k : Nat}

theorem erase_lift : (m.lift n c).erase = m.erase.lift n c := by
  induction m generalizing c with
  | tau | atom | var | param => rfl
  | function domain body ihd ihb => simp [lift, erase, ihd, ihb]
  | apply head arg ihh iha => simp [lift, erase, ihh, iha]
  | projection inner ih => simp [lift, erase, ih]
  | cast inner ih => simp [lift, erase, ih]

theorem erase_subst : (m.subst image k).erase = m.erase.subst image.erase k := by
  induction m generalizing k with
  | tau | atom | var => rfl
  | param place type =>
    rw [subst, erase, subst]
    cases place.drop k with
    | none => exact erase_lift
    | some place => rfl
  | function domain body ihd ihb => simp [subst, erase, ihd, ihb]
  | apply head arg ihh iha => simp [subst, erase, ihh, iha]
  | projection inner ih => simp [subst, erase, ih]
  | cast inner ih => simp [subst, erase, ih]

def mapVars (f : StatementId → Option Nameless) : Nameless → Nameless
  | tau => tau
  | atom name => atom name
  | var id type => (f id).getD (var id type)
  | param place type => param place (mapVars f type)
  | function domain body => function (mapVars f domain) (mapVars f body)
  | apply head arg => apply (mapVars f head) (mapVars f arg)
  | projection inner => projection (mapVars f inner)
  | cast inner => cast (mapVars f inner)

theorem erase_mapVars (f : StatementId → Option Nameless) :
    (m.mapVars f).erase = m.erase.mapVars fun v => (f v).map erase := by
  induction m with
  | tau | atom | param => rfl
  | var id type => cases hf : f id <;> simp [mapVars, erase, hf]
  | function domain body ihd ihb => simp [mapVars, erase, ihd, ihb]
  | apply head arg ihh iha => simp [mapVars, erase, ihh, iha]
  | projection inner ih => simp [mapVars, erase, ih]
  | cast inner ih => simp [mapVars, erase, ih]

end Nameless

namespace Term

variable {a b t w w' : Term} {p : ParamId} {f f' : StatementId → Option Term}
  {binders : List ParamId}

structure EqualClosed (w w' : Term) : Prop where
  left : w.Closed
  right : w'.Closed
  equal : (w == w') = true

/-- Replacing variables by closed terms replaces them in the nameless form, under any binders. -/
theorem nameless_mapVars (h : ∀ v w, f v = some w → w.Closed) :
    (t.mapVars f).nameless binders =
      (t.nameless binders).mapVars fun v => (f v).map (nameless []) := by
  induction t generalizing binders with
  | tau | atom => rfl
  | var v type =>
    rw [mapVars, nameless, Nameless.mapVars]
    cases hf : f v with
    | none => rfl
    | some w => exact (h v w hf).nameless
  | param q type ih => rw [mapVars, nameless, nameless, Nameless.mapVars, ih]
  | function q domain body ihd ihb =>
    rw [mapVars, nameless, nameless, Nameless.mapVars, ihd, ihb]
  | apply head arg ihh iha => rw [mapVars, nameless, nameless, Nameless.mapVars, ihh, iha]
  | projection inner ih => rw [mapVars, nameless, nameless, Nameless.mapVars, ih]
  | cast inner ih => rw [mapVars, nameless, nameless, Nameless.mapVars, ih]

theorem EqualClosed.images {image image' : Option Term} (h : Option.Rel EqualClosed image image') :
    (∀ w, image = some w → w.Closed) ∧ (∀ w, image' = some w → w.Closed) ∧
      (image.map (nameless [])).map Nameless.erase =
        (image'.map (nameless [])).map Nameless.erase := by
  cases h with
  | none => simp
  | some hw =>
    refine ⟨fun w h => ?_, fun w h => ?_, congrArg some (beq_iff.1 hw.equal)⟩
    · cases h
      exact hw.left
    · cases h
      exact hw.right

theorem mapVars_beq (h : (a == b) = true) (hf : ∀ v, Option.Rel EqualClosed (f v) (f' v)) :
    (a.mapVars f == b.mapVars f') = true := by
  have himages := funext fun v => (EqualClosed.images (hf v)).2.2
  rw [@beq_iff _ _ [], nameless_mapVars fun v => (EqualClosed.images (hf v)).1,
    nameless_mapVars fun v => (EqualClosed.images (hf v)).2.1, Nameless.erase_mapVars,
    Nameless.erase_mapVars, beq_iff.1 h, himages]

theorem replaceParam_beq (h : (a == b) = true) (hw : EqualClosed w w') :
    (a.replaceParam p w == b.replaceParam p w') = true := by
  -- with a binder for the parameter around them, the terms are still equal, and no name is free
  have hsubst (t : Term) {w : Term} (hw : w.Closed) :
      (t.replaceParam p w).nameless [] = (t.nameless [p]).subst (w.nameless []) 0 :=
    nameless_replaceParam List.not_mem_nil (fun _ q hq => by cases hq) hw.admits
  rw [@beq_iff _ _ [], hsubst a hw.left, hsubst b hw.right, Nameless.erase_subst,
    Nameless.erase_subst, beq_iff.1 h, beq_iff.1 hw.equal]

/-- Equal terms stay equal if a parameter or variables are replaced by equal closed terms. -/
theorem substitution_respects_beq {a b : Term} (h : (a == b) = true) :
    (∀ p w w', EqualClosed w w' → (a.replaceParam p w == b.replaceParam p w') = true) ∧
      (∀ v w w', EqualClosed w w' → (a.replaceVar v w == b.replaceVar v w') = true) ∧
      ∀ images images' : Table StatementId Term,
        (∀ v, Option.Rel EqualClosed (images.get? v) (images'.get? v)) →
          (a.replaceVars images == b.replaceVars images') = true := by
  refine ⟨fun p w w' hw => replaceParam_beq h hw, fun v w w' hw => ?_,
    fun images images' himages => mapVars_beq h himages⟩
  apply mapVars_beq h
  intro x
  by_cases hx : x = v
  · rw [if_pos hx, if_pos hx]
    exact .some hw
  · rw [if_neg hx, if_neg hx]
    exact .none

/-- Nothing of the kind holds for open terms: the binder of one of two equal terms catches what the
binder of the other does not. -/
example : (function ⟨1⟩ tau (param ⟨3⟩ tau) == function ⟨2⟩ tau (param ⟨3⟩ tau)) = true ∧
    ((function ⟨1⟩ tau (param ⟨3⟩ tau)).replaceParam ⟨3⟩ (param ⟨1⟩ tau) ==
      (function ⟨2⟩ tau (param ⟨3⟩ tau)).replaceParam ⟨3⟩ (param ⟨1⟩ tau)) = false := by decide

/-- A parameter and the variable of a statement under binders, one of which has its name. -/
def twofold (v : StatementId) (outer inner : ParamId) : Term :=
  function outer tau (apply (apply (param ⟨7⟩ tau) (var v tau))
    (function inner tau (apply (param inner tau) (var v tau))))

def identityAt (p : ParamId) : Term := function p tau (param p tau)

theorem twofold_respected : let v : StatementId := ⟨1, by decide, by decide⟩
    let a := twofold v ⟨1⟩ ⟨7⟩
    let b := twofold v ⟨2⟩ ⟨9⟩
    let w := identityAt ⟨1⟩
    let w' := identityAt ⟨2⟩
    (a == b) = true ∧ EqualClosed w w' ∧ (a.replaceParam ⟨7⟩ w == b.replaceParam ⟨7⟩ w') = true ∧
      (a.replaceVar v w == b.replaceVar v w') = true ∧
      (a.replaceVars (Table.empty.insert v w) == b.replaceVars (Table.empty.insert v w')) =
        true := by
  intro v a b w w'
  have h : (a == b) = true := by decide
  have hclosed (p : ParamId) : (identityAt p).Closed := by
    intro q
    simp [identityAt, mentions]
  have hw : EqualClosed w w' := ⟨hclosed _, hclosed _, by decide⟩
  obtain ⟨hparam, hvar, hvars⟩ := substitution_respects_beq h
  refine ⟨h, hw, hparam _ _ _ hw, hvar _ _ _ hw, hvars _ _ fun x => ?_⟩
  by_cases hx : x = v
  · rw [hx, Table.get?_insert_self, Table.get?_insert_self]
    exact .some hw
  · rw [Table.get?_insert_ne _ hx, Table.get?_insert_ne _ hx]
    exact .none

end Term

end StatementGraph
