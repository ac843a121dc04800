import Mathlib.Logic.Relation
import StatementGraph.Statement

namespace StatementGraph

/-- What a statement is, apart from its flag and its name. -/
structure Content where
  owner : Option StatementId
  term : Term
  dependencies : IdSet
  kind : StatementKind

/-- What the record of a statement says apart from its flag and its name. -/
def Statement.content (st : Statement) : Content := ⟨st.owner, st.term, st.dependencies, st.kind⟩

theorem Statement.mem_assumptions {st : Statement} {a : StatementId} :
    a ∈ st.assumptions ↔ ∃ data, st.kind = .context data ∧ a ∈ data.assumptions := by
  rw [assumptions, contextData?]
  cases st.kind <;> simp

theorem Statement.getElem?_assumptions {st : Statement} {i : Nat} {a : StatementId} :
    st.assumptions[i]? = some a ↔
      ∃ data, st.kind = .context data ∧ data.assumptions[i]? = some a := by
  rw [assumptions, contextData?]
  cases st.kind <;> simp

theorem Statement.isContext_iff {st : Statement} :
    st.isContext = true ↔ ∃ data, st.kind = .context data := by
  rw [isContext, contextData?]
  cases st.kind <;> simp

theorem Statement.isAssumption_iff {st : Statement} :
    st.isAssumption = true ↔ ∃ i, st.kind = .assumption i := by
  rw [isAssumption]
  cases st.kind <;> simp

theorem Statement.isRoot_iff {st : Statement} :
    st.isRoot = true ↔ ∃ data, st.kind = .context data ∧ data.kind = .root := by
  rw [isRoot, contextData?]
  cases st.kind <;> simp

abbrev Graph := StatementId → Option Content

namespace Graph

variable {G H K : Graph} {x y z : StatementId} {c c' : Content}

def Sub (G H : Graph) : Prop := ∀ x c, G x = some c → H x = some c

theorem Sub.refl (G : Graph) : G.Sub G := fun _ _ h => h

theorem Sub.trans (h : G.Sub H) (h' : H.Sub K) : G.Sub K := fun x c hx => h' x c (h x c hx)

def set (G : Graph) (x : StatementId) (o : Option Content) : Graph :=
  fun y => if y = x then o else G y

@[simp] theorem set_self {o : Option Content} : G.set x o x = o := if_pos rfl

theorem set_ne {o : Option Content} (h : y ≠ x) : G.set x o y = G y := if_neg h

theorem set_set {o o' : Option Content} : (G.set x o).set x o' = G.set x o' := by
  funext y
  simp only [set]
  split <;> rfl

theorem set_of_none (h : G x = none) : G.set x none = G := by
  funext y
  rw [set]
  split
  · rename_i he
    rw [he, h]
  · rfl

theorem Sub.set_new (h : G x = none) : G.Sub (G.set x (some c)) := by
  intro y c' hy
  have hne : y ≠ x := by
    rintro rfl
    rw [h] at hy
    cases hy
  rw [set_ne hne]
  exact hy

def ownerOf (G : Graph) (x : StatementId) : Option StatementId := (G x).bind Content.owner

theorem ownerOf_eq : G.ownerOf x = some y ↔ ∃ c, G x = some c ∧ c.owner = some y := by
  rw [ownerOf, Option.bind_eq_some_iff]

def Within (G : Graph) : StatementId → StatementId → Prop :=
  Relation.ReflTransGen fun a b => G.ownerOf a = some b

theorem Sub.ownerOf (h : G.Sub H) (hx : G.ownerOf x = some y) : H.ownerOf x = some y := by
  obtain ⟨c, hc, ho⟩ := ownerOf_eq.1 hx
  exact ownerOf_eq.2 ⟨c, h x c hc, ho⟩

theorem Sub.within (h : G.Sub H) (hx : G.Within x y) : H.Within x y :=
  Relation.ReflTransGen.mono (fun _ _ => h.ownerOf) _ _ hx

/-- A statement without an owner is inside nothing but itself. -/
theorem within_top (h : G.ownerOf x = none) : G.Within x y ↔ y = x := by
  constructor
  · intro hw
    rcases Relation.ReflTransGen.cases_head hw with rfl | ⟨o, ho, -⟩
    · rfl
    · cases h.symm.trans ho
  · rintro rfl
    exact .refl

theorem within_iff_owner (h : G.ownerOf x = some z) : G.Within x y ↔ y = x ∨ G.Within z y := by
  constructor
  · intro hw
    rcases Relation.ReflTransGen.cases_head hw with rfl | ⟨o, ho, hwo⟩
    · exact Or.inl rfl
    · cases h.symm.trans ho
      exact Or.inr hwo
  · rintro (rfl | hw)
    · exact .refl
    · exact .head h hw

/-- A statement can be mentioned inside a context: its owner is the context or one around it. -/
def Sees (G : Graph) (context x : StatementId) : Prop :=
  ∃ c o, G x = some c ∧ c.owner = some o ∧ G.Within context o

theorem Sub.sees (h : G.Sub H) (hx : G.Sees y x) : H.Sees y x := by
  obtain ⟨c, o, hc, ho, hw⟩ := hx
  exact ⟨c, o, h x c hc, ho, h.within hw⟩

theorem Sees.within (h : G.Sees y x) (hw : G.Within z y) : G.Sees z x := by
  obtain ⟨c, o, hc, ho, hw'⟩ := h
  exact ⟨c, o, hc, ho, hw.trans hw'⟩

/-- A statement solves a context: it is seen from the context and asserts its consequent. -/
def Solves (G : Graph) (y x : StatementId) : Prop :=
  y ≠ x ∧ G.Sees x y ∧ ∃ c c' data, G x = some c ∧ c.kind = .context data ∧ G y = some c' ∧
    (c'.term == data.consequent) = true

theorem Sub.solves (h : G.Sub H) (hs : G.Solves y x) : H.Solves y x := by
  obtain ⟨hne, hsees, c, c', data, hx, hk, hy, ht⟩ := hs
  exact ⟨hne, h.sees hsees, c, c', data, h x c hx, hk, h y c' hy, ht⟩

/-- The statements that follow by the proof rule in finitely many steps. -/
inductive Derivable (G : Graph) : StatementId → Prop where
  | plain {x : StatementId} {c : Content} (hx : G x = some c)
      (hk : ∀ data, c.kind ≠ .context data) (hd : ∀ d ∈ c.dependencies, Derivable G d) :
      Derivable G x
  | solved {x y : StatementId} {c : Content} (hx : G x = some c)
      (hd : ∀ d ∈ c.dependencies, Derivable G d) (hs : G.Solves y x) (hy : Derivable G y) :
      Derivable G x

theorem Derivable.live (h : G.Derivable x) : ∃ c, G x = some c := by
  cases h with
  | plain hx => exact ⟨_, hx⟩
  | solved hx => exact ⟨_, hx⟩

theorem Derivable.mono (hs : G.Sub H) (h : G.Derivable x) : H.Derivable x := by
  induction h with
  | plain hx hk hd ih => exact .plain (hs _ _ hx) hk ih
  | solved hx hd hy _ ihd ihy => exact .solved (hs _ _ hx) ihd (hs.solves hy) ihy

def Rooted (G : Graph) : Prop := ∀ x c o, G x = some c → c.owner = some o → ∃ c', G o = some c'

theorem Sub.within_of (hs : G.Sub H) (hr : G.Rooted) (hx : G x = some c) (h : H.Within x y) :
    G.Within x y ∧ ∃ c', G y = some c' := by
  induction h with
  | refl => exact ⟨.refl, c, hx⟩
  | tail _ hstep ih =>
    obtain ⟨hw, c', hc'⟩ := ih
    obtain ⟨d, hd, ho⟩ := ownerOf_eq.1 hstep
    rw [hs _ _ hc'] at hd
    cases hd
    exact ⟨hw.tail (ownerOf_eq.2 ⟨c', hc', ho⟩), hr _ _ _ hc' ho⟩

theorem Sub.sees_of (hs : G.Sub H) (hr : G.Rooted) (hy : G y = some c) (hx : G x = some c')
    (h : H.Sees y x) : G.Sees y x := by
  obtain ⟨d, o, hd, ho, hw⟩ := h
  rw [hs _ _ hx] at hd
  cases hd
  exact ⟨c', o, hx, ho, (hs.within_of hr hy hw).1⟩

theorem Sub.solves_of (hs : G.Sub H) (hr : G.Rooted) (hy : G y = some c) (hx : G x = some c')
    (h : H.Solves y x) : G.Solves y x := by
  obtain ⟨hne, hsees, d, d', data, hd, hk, hd', ht⟩ := h
  rw [hs _ _ hx] at hd
  rw [hs _ _ hy] at hd'
  cases hd
  cases hd'
  exact ⟨hne, hs.sees_of hr hx hy hsees, c', c, data, hx, hk, hy, ht⟩

def Owned (G : Graph) : Prop := ∀ x c o, G x = some c → c.owner = some o →
  ∃ c' data, G o = some c' ∧ c'.kind = .context data

theorem Owned.rooted (h : G.Owned) : G.Rooted := by
  intro x c o hx ho
  obtain ⟨c', -, hc', -⟩ := h x c o hx ho
  exact ⟨c', hc'⟩

theorem Owned.owner (ho : G.Owned) (h : G.ownerOf x = some y) :
    ∃ c data, G y = some c ∧ c.kind = .context data := by
  obtain ⟨c, hc, howner⟩ := ownerOf_eq.1 h
  exact ho x c y hc howner

/-- Every owner is a context of the graph, and a context lists exactly the assumptions it owns. -/
structure Housed (G : Graph) : Prop where
  owned : G.Owned
  assumptions : ∀ x c data a, G x = some c → c.kind = .context data →
    (a ∈ data.assumptions ↔
      ∃ ca i, G a = some ca ∧ ca.owner = some x ∧ ca.kind = .assumption i)

/-- Owners are contexts of the graph and come before what they own. -/
def Forest (G : Graph) : Prop := ∀ x c o, G x = some c → c.owner = some o →
  o < x ∧ ∃ c' data, G o = some c' ∧ c'.kind = .context data

theorem Forest.owned (hf : G.Forest) : G.Owned := fun x c o hx ho => (hf x c o hx ho).2

theorem Forest.owner (hf : G.Forest) (h : G.ownerOf x = some y) :
    y < x ∧ ∃ c data, G y = some c ∧ c.kind = .context data := by
  obtain ⟨c, hc, ho⟩ := ownerOf_eq.1 h
  exact hf x c y hc ho

theorem Forest.within_le (hf : G.Forest) (h : G.Within x y) : y = x ∨ y < x := by
  induction h with
  | refl => exact Or.inl rfl
  | tail _ hstep ih =>
    have hlt := (hf.owner hstep).1
    rcases ih with rfl | ih
    · exact Or.inr hlt
    · exact Or.inr (Nat.lt_trans hlt ih)

theorem Forest.not_within (hf : G.Forest) (h : x < y) : ¬G.Within x y := by
  intro hw
  rcases hf.within_le hw with rfl | hlt
  · exact Nat.lt_irrefl _ h
  · exact Nat.lt_asymm h hlt

/-- Nothing in the graph names a statement outside it. -/
structure Closed (G : Graph) : Prop where
  owner : G.Rooted
  dependency : ∀ x c d, G x = some c → d ∈ c.dependencies → ∃ c', G d = some c'
  assumption : ∀ x c data a, G x = some c → c.kind = .context data → a ∈ data.assumptions →
    ∃ c', G a = some c'

theorem Derivable.restrict {R : StatementId → Prop} (hs : G.Sub H) (hc : G.Closed)
    (hdep : ∀ x c d, G x = some c → d ∈ c.dependencies → R d → R x)
    (hsolve : ∀ y x, G.Solves y x → R y → R x)
    (hgone : ∀ y x c, G x = some c → H.Solves y x → H.Derivable y → G y = none → R x)
    (h : H.Derivable x) (hx : G x = some c) (hR : ¬R x) : G.Derivable x := by
  induction h generalizing c with
  | @plain x d hx' hk hd ih =>
    rw [hs _ _ hx] at hx'
    cases hx'
    refine .plain hx hk fun e he => ?_
    obtain ⟨c', hc'⟩ := hc.dependency x d e hx he
    exact ih e he hc' fun hRe => hR (hdep x d e hx he hRe)
  | @solved x y d hx' hd hy hyd ihd ihy =>
    rw [hs _ _ hx] at hx'
    cases hx'
    have hdeps : ∀ e ∈ d.dependencies, G.Derivable e := by
      intro e he
      obtain ⟨c', hc'⟩ := hc.dependency x d e hx he
      exact ihd e he hc' fun hRe => hR (hdep x d e hx he hRe)
    cases hGy : G y with
    | none => exact absurd (hgone y x d hx hy hyd hGy) hR
    | some c' =>
      have hsol := hs.solves_of hc.owner hGy hx hy
      exact .solved hx hdeps hsol (ihy hGy fun hRy => hR (hsolve y x hsol hRy))

end Graph

end StatementGraph
