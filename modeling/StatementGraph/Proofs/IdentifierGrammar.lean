import StatementGraph.Identifier

namespace StatementGraph

namespace Identifier

def IsLetter (c : Char) : Prop := ('A' ≤ c ∧ c ≤ 'Z') ∨ ('a' ≤ c ∧ c ≤ 'z')

def IsDigit (c : Char) : Prop := '0' ≤ c ∧ c ≤ '9'

/-- A character that stands after the first one in a component. -/
def IsTail (c : Char) : Prop := IsLetter c ∨ IsDigit c ∨ c = '_' ∨ c = '\''

/-- Not empty, a letter or underscore first, then letters, digits, underscores, apostrophes. -/
def IsComponent : List Char → Prop
  | [] => False
  | c :: rest => (IsLetter c ∨ c = '_') ∧ ∀ d ∈ rest, IsTail d

variable {c : Char} {s : List Char} {name : Identifier}

theorem isAlpha_iff : c.isAlpha = true ↔ IsLetter c := by
  have halpha : c.isAlpha = (c.isUpper || c.isLower) := rfl
  have hupper : c.isUpper = decide ('A' ≤ c ∧ c ≤ 'Z') := rfl
  have hlower : c.isLower = (decide ('a' ≤ c) && decide (c ≤ 'z')) := rfl
  simp [IsLetter, halpha, hupper, hlower]

theorem isDigit_iff : c.isDigit = true ↔ IsDigit c := Char.isDigit_iff_toNat

theorem isStart_iff : isStart c = true ↔ IsLetter c ∨ c = '_' := by
  simp [isStart, isAlpha_iff]

theorem isPart_iff : isPart c = true ↔ IsTail c := by
  simp [isPart, IsTail, Char.isAlphanum, isAlpha_iff, isDigit_iff, or_assoc]

theorem IsComponent.dotless (h : IsComponent s) : '.' ∉ s := by
  have hdot : ¬IsTail '.' := fun htail => absurd (isPart_iff.2 htail) (by decide)
  have hstart : ¬(IsLetter '.' ∨ '.' = '_') := fun h => absurd (isStart_iff.2 h) (by decide)
  cases s with
  | nil => exact h.elim
  | cons c rest =>
    intro hmem
    rcases List.mem_cons.1 hmem with rfl | hmem
    · exact hstart h.1
    · exact hdot (h.2 _ hmem)

/-! ### What the scan accepts -/

theorem scan_iff_pieces (s : List Char) : ∃ first others, s.splitOn '.' = first :: others ∧
    (scan true s = true ↔ IsComponent first ∧ ∀ t ∈ others, IsComponent t) ∧
      (scan false s = true ↔ (∀ c ∈ first, IsTail c) ∧ ∀ t ∈ others, IsComponent t) := by
  induction s with
  | nil => exact ⟨[], [], rfl, by simp [scan, IsComponent], by simp [scan]⟩
  | cons c rest ih =>
    obtain ⟨first, others, hpieces, hstart, hinside⟩ := ih
    rw [List.splitOn_cons_eq_if_modifyHead, hpieces]
    by_cases hc : c = '.'
    · refine ⟨[], first :: others, by simp [hc], ?_, ?_⟩
      · simp [scan, hc, isStart, IsComponent]
      · simp [scan, hc, hstart]
    · refine ⟨c :: first, others, by simp [hc], ?_, ?_⟩
      · simp [scan, isStart_iff, hinside, IsComponent, and_assoc]
      · simp [scan, hc, isPart_iff, hinside, and_assoc]

theorem scan_iff : scan true s = true ↔ ∀ t ∈ s.splitOn '.', IsComponent t := by
  obtain ⟨first, others, hpieces, hstart, -⟩ := scan_iff_pieces s
  rw [hpieces, hstart, List.forall_mem_cons]

theorem parse_eq_ok {raw : String} : parse raw = .ok name ↔ name.text = raw := by
  constructor
  · intro h
    rw [parse, ofString?] at h
    split at h
    case h_1 found heq =>
      cases h
      split at heq
      · cases heq
        rfl
      · cases heq
    case h_2 => cases h
  · rintro rfl
    rw [parse, ofString?, dif_pos name.valid]

/-! ### The components -/

theorem splitDots_eq (s : List Char) : splitDots s = s.splitOn '.' := by
  induction s with
  | nil => rfl
  | cons c rest ih =>
    rw [splitDots, List.splitOn_cons_eq_if_modifyHead, ih]
    by_cases hc : c = '.'
    · simp [hc]
    · obtain ⟨first, others, hpieces⟩ :=
        List.exists_cons_of_ne_nil (List.splitOn_ne_nil '.' rest)
      simp [hc, hpieces]

/-- What is read from the end is the last piece. -/
theorem splitOn_eq_concat (s : List Char) :
    ∃ before, s.splitOn '.' = before ++ [(s.reverse.takeWhile (· ≠ '.')).reverse] := by
  have hdotless : '.' ∉ (s.reverse.takeWhile (· ≠ '.')).reverse := by
    intro hmem
    have hne := List.all_eq_true.1 List.all_takeWhile '.' (List.mem_reverse.1 hmem)
    simp at hne
  have hs : (s.reverse.dropWhile (· ≠ '.')).reverse ++
      (s.reverse.takeWhile (· ≠ '.')).reverse = s := by
    rw [← List.reverse_append, List.takeWhile_append_dropWhile, List.reverse_reverse]
  -- the reading from the end stops at a dot, or at the start of the text
  cases hdrop : s.reverse.dropWhile (· ≠ '.') with
  | nil =>
    rw [hdrop, List.reverse_nil, List.nil_append] at hs
    exact ⟨[], by rw [hs, List.splitOn_eq_singleton (hs ▸ hdotless), List.nil_append]⟩
  | cons d before =>
    have hd : d = '.' := by
      have hhead := List.head?_dropWhile_not (· ≠ '.') s.reverse
      rw [hdrop] at hhead
      simpa using hhead
    refine ⟨before.reverse.splitOn '.', ?_⟩
    rw [hdrop, hd, List.reverse_cons, List.append_assoc, List.singleton_append] at hs
    calc s.splitOn '.'
      _ = (before.reverse ++ '.' :: (s.reverse.takeWhile (· ≠ '.')).reverse).splitOn '.' := by
        rw [hs]
      _ = _ := by rw [List.splitOn_append_cons_self, List.splitOn_eq_singleton hdotless]

theorem map_toList_components (name : Identifier) :
    (name.space ++ [name.last]).map String.toList = name.text.toList.splitOn '.' := by
  obtain ⟨before, hbefore⟩ := splitOn_eq_concat name.text.toList
  rw [space, components, splitDots_eq, last, hbefore]
  simp

/-- A text is a name if and only if, cut at its dots, it has only well-formed components. -/
theorem parse_grammar (raw : String) :
    ((∃ name, parse raw = .ok name) ↔ ∀ s ∈ raw.toList.splitOn '.', IsComponent s) ∧
      ∀ name, parse raw = .ok name →
        (name.space ++ [name.last]).map String.toList = raw.toList.splitOn '.' ∧
        ".".intercalate (name.space ++ [name.last]) = raw ∧
        ∀ s ∈ name.space ++ [name.last], '.' ∉ s.toList := by
  refine ⟨?_, fun name h => ?_⟩
  · rw [← scan_iff]
    constructor
    · rintro ⟨name, h⟩
      rw [← parse_eq_ok.1 h]
      exact name.valid
    · intro h
      exact ⟨⟨raw, h⟩, parse_eq_ok.2 rfl⟩
  · obtain rfl := parse_eq_ok.1 h
    have hpieces := map_toList_components name
    refine ⟨hpieces, ?_, fun s hs => ?_⟩
    · apply String.toList_injective
      rw [String.toList_intercalate, hpieces]
      exact List.intercalate_splitOn '.'
    · have hmem : s.toList ∈ name.text.toList.splitOn '.' := hpieces ▸ List.mem_map_of_mem hs
      exact (scan_iff.1 name.valid _ hmem).dotless

/-- An empty component, a line break at the end and a letter beyond ASCII are refused. -/
example : ["", ".a", "a.", "a..b", "a\n", "é"].all fun raw => (ofString? raw).isNone := by decide

theorem dotted_grammar : let name : Identifier := ⟨"group.assoc_law'", by decide⟩
    parse "group.assoc_law'" = .ok name ∧ name.space = ["group"] ∧ name.last = "assoc_law'" ∧
      ".".intercalate (name.space ++ [name.last]) = "group.assoc_law'" ∧
      ∀ s ∈ name.space ++ [name.last], '.' ∉ s.toList := by
  intro name
  have h : parse "group.assoc_law'" = .ok name := parse_eq_ok.2 rfl
  obtain ⟨-, hjoined, hdotless⟩ := (parse_grammar _).2 name h
  exact ⟨h, by decide, by decide, hjoined, hdotless⟩

end Identifier

end StatementGraph
