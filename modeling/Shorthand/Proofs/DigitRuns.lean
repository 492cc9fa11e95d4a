import Shorthand.Proofs.Content
import Shorthand.Proofs.Resolution
import Shorthand.Proofs.Source

/-!
# Rows of digits

How many digits in a row a text may hold.

- `digitCount`: the number of digits of a text. A part of a text has no more than the whole.
- `ShortRuns L t`: no row of digits in `t` is longer than `L`. This is so when `t` has at most `L`
  digits, and it is kept when texts are joined at a character that is no digit.
- `shortRuns_attributes`, `shortRuns_openingFragment`: the same for what a node is written as, where
  a table may put its names in any number of places.
-/

namespace Shorthand

/-- The number of digits of a text. -/
def digitCount (t : Text) : Nat :=
  t.countP isDigit

theorem digitCount_append (a b : Text) : digitCount (a ++ b) = digitCount a + digitCount b :=
  List.countP_append

theorem digitCount_le {a b : Text} (h : a.Sublist b) : digitCount a ≤ digitCount b :=
  h.countP_le

theorem isDigit_of_isBlank {c : Char} (h : isBlank c = true) : isDigit c = false := by
  have hall : blankChars.all (!isDigit ·) = true := by decide +kernel
  simpa using of_all_blankChars hall h

/-- No row of digits in the text is longer than `L`. -/
def ShortRuns (L : Nat) (t : Text) : Prop :=
  ∀ row, row <:+: t → (∀ c ∈ row, isDigit c = true) → row.length ≤ L

namespace ShortRuns

variable {L : Nat} {a b t : Text} {c : Char}

theorem of_digitCount (h : digitCount t ≤ L) : ShortRuns L t := fun row hrow hdigits =>
  calc row.length = digitCount row := (List.countP_eq_length.2 hdigits).symm
    _ ≤ digitCount t := digitCount_le hrow.sublist
    _ ≤ L := h

theorem append_cons (ha : ShortRuns L a) (hc : isDigit c = false) (hb : ShortRuns L b) :
    ShortRuns L (a ++ c :: b) := by
  intro row hrow hdigits
  have hmem : c ∉ row := fun hmem => by simp [hdigits c hmem] at hc
  rcases infix_append_cons hmem hrow with hrow | hrow
  · exact ha row hrow hdigits
  · exact hb row hrow hdigits

theorem nil (L : Nat) : ShortRuns L [] :=
  of_digitCount (Nat.zero_le L)

theorem cons (hc : isDigit c = false) (ht : ShortRuns L t) : ShortRuns L (c :: t) :=
  (nil L).append_cons hc ht

theorem tail (h : ShortRuns L (c :: t)) : ShortRuns L t := fun row hrow =>
  h row (hrow.trans (List.suffix_cons c t).isInfix)

theorem append (ha : ShortRuns L a) (hb : ShortRuns L b)
    (hhead : ∀ c ∈ b.head?, isDigit c = false) : ShortRuns L (a ++ b) := by
  cases b with
  | nil => rwa [List.append_nil]
  | cons c b => exact ha.append_cons (hhead c rfl) hb.tail

/-- A text without digits may be put in front. -/
theorem digitless_append (ha : digitCount a = 0) (hb : ShortRuns L b) : ShortRuns L (a ++ b) := by
  induction a with
  | nil => exact hb
  | cons c a ih =>
    rw [digitCount, List.countP_cons, Nat.add_eq_zero_iff] at ha
    exact cons (by simpa using ha.2) (ih ha.1)

/-- A text without digits may be put behind. -/
theorem append_digitless (ha : ShortRuns L a) (hb : digitCount b = 0) : ShortRuns L (a ++ b) :=
  ha.append (of_digitCount (hb ▸ Nat.zero_le L)) fun c hc => by
    simpa using List.countP_eq_zero.1 hb c (List.mem_of_mem_head? hc)

theorem intercalate {ts : List Text} (h : ∀ t ∈ ts, ShortRuns L t) :
    ShortRuns L (List.intercalate [' '] ts) := by
  match ts with
  | [] => exact nil L
  | [t] => simpa using h
  | t :: u :: ts =>
    rw [List.intercalate_cons_cons, List.append_assoc, List.singleton_append]
    exact (h t List.mem_cons_self).append_cons (by decide)
      (intercalate fun v hv => h v (List.mem_cons_of_mem _ hv))

theorem flatMap_cons {ts : List Text} (hc : isDigit c = false) (h : ∀ t ∈ ts, ShortRuns L t) :
    ShortRuns L (ts.flatMap (c :: ·)) := by
  induction ts with
  | nil => exact nil L
  | cons t ts ih =>
    rw [List.flatMap_cons, List.cons_append]
    refine cons hc ((h t List.mem_cons_self).append (ih fun u hu => h u (List.mem_cons_of_mem _ hu))
      fun d hd => ?_)
    cases ts with
    | nil => cases hd
    | cons u ts =>
      cases hd
      exact hc

end ShortRuns

/-! ## Attributes -/

theorem isDigit_of_not_isNameChar {c : Char} (h : BracketPiece.isNameChar c = false) :
    isDigit c = false := by
  rw [BracketPiece.isNameChar, Bool.and_eq_false_iff] at h
  rcases h with h | h
  · obtain rfl : c = '=' := by simpa using h
    decide
  · exact isDigit_of_isBlank (by simpa using h)

namespace BracketPiece

theorem sublist_readValue (t : Text) :
    (readValue t).1.Sublist t ∧ (readValue t).2.Sublist t := by
  cases t with
  | nil => exact ⟨.refl _, .refl _⟩
  | cons q rest =>
    rw [readValue_cons, Text.beforeFirst, Text.afterFirst]
    split
    · exact ⟨(List.takeWhile_sublist _).cons q,
        ((List.drop_sublist 1 _).trans (List.dropWhile_sublist _)).cons q⟩
    · exact ⟨List.takeWhile_sublist _, List.dropWhile_sublist _⟩

/-- Behind a name that is no part of a pair, what is written does not go on with a digit. -/
theorem head_render {t : Text} (ht : ∀ c ∈ t.head?, isNameChar c = false) (table : Table) :
    ∀ c ∈ ((scan t).flatMap (render table)).head?, isDigit c = false := by
  rw [head?_render table ht]
  exact fun c hc => isDigit_of_not_isNameChar (ht c hc)

theorem shortRuns_pair {L : Nat} {table : Table} {name value rest : Text}
    (htable : ∀ entry ∈ table, digitCount entry.2 ≤ L) (hname : digitCount name ≤ L)
    (hvalue : digitCount value ≤ L) (hrest : ShortRuns L rest) :
    ShortRuns L (render table (pair name value) ++ rest) := by
  have hname' : digitCount ((table.nonempty? name).getD name) ≤ L := by
    cases hget : table.nonempty? name with
    | none => exact hname
    | some other =>
      obtain ⟨entry, hentry, rfl⟩ := Table.exists_mem_of_get? (Option.filter_eq_some_iff.1 hget).1
      exact htable entry hentry
  have hquote : ∀ q, isDigit q = false → ShortRuns L (q :: (value ++ [q]) ++ rest) := fun q hq => by
    rw [List.cons_append, List.append_assoc]
    exact .cons hq ((ShortRuns.of_digitCount hvalue).append_cons hq hrest)
  rw [render, List.append_assoc, List.cons_append]
  refine (ShortRuns.of_digitCount hname').append_cons (by decide) ?_
  rw [quoteValue]
  exact hquote _ (by split <;> decide)

end BracketPiece

/-- The names of a table may stand in a bracket any number of times, but a `=` follows each. -/
theorem shortRuns_attributes {L : Nat} {table : Table} {t : Text} (ht : digitCount t ≤ L)
    (htable : ∀ entry ∈ table, digitCount entry.2 ≤ L) :
    ShortRuns L (expandAttributes table t) := by
  rw [expandAttributes]
  fun_induction BracketPiece.scan t with
  | case1 => exact .nil L
  | case2 c rest hc after h ih =>
    obtain ⟨hvalue, hrest⟩ := BracketPiece.sublist_readValue after
    have hafter : after.Sublist (c :: rest) :=
      ((List.sublist_cons_self '=' after).trans (h ▸ List.dropWhile_sublist _)).cons c
    exact BracketPiece.shortRuns_pair htable
      ((digitCount_le ((List.takeWhile_sublist _).cons_cons c)).trans ht)
      ((digitCount_le (hvalue.trans hafter)).trans ht)
      (ih ((digitCount_le (hrest.trans hafter)).trans ht))
  | case3 c rest hc hnopair ih =>
    refine ShortRuns.append
      (.of_digitCount ((digitCount_le ((List.takeWhile_sublist _).cons_cons c)).trans ht))
      (ih ((digitCount_le ((List.dropWhile_sublist _).cons c)).trans ht)) ?_
    refine BracketPiece.head_render (fun d hd => ?_) table
    have hnot := List.head?_dropWhile_not BracketPiece.isNameChar rest
    rwa [Option.mem_def.1 hd] at hnot
  | case4 c rest hc ih =>
    refine .cons (isDigit_of_not_isNameChar (by simpa using hc)) ?_
    exact ih ((digitCount_le (List.sublist_cons_self c rest)).trans ht)

/-! ## Nodes -/

namespace Part

/-- The text of a part. -/
def text : Part → Text
  | content t | bracket t | cls t | id t | word t => t

theorem prefix_splitAtLast {close : Char} {t : Text} {p : Text × Text}
    (h : splitAtLast close t = some p) : p.1 <+: t := by
  fun_induction splitAtLast close t generalizing p with
  | case1 => cases h
  | case2 => cases h
  | case3 c rest hc inside after hs ih =>
    cases h
    exact (List.cons_prefix_cons.2 ⟨rfl, ih hs⟩)
  | case4 =>
    cases h
    exact List.nil_prefix
  | case5 => cases h

theorem sublist_read? {t : Text} {p : Part × Text} (h : read? t = some p) :
    p.1.text.Sublist t := by
  have hspan {close : Char} {rest : Text} {q : Text × Text} (hq : span? close rest = some q) :
      q.1.Sublist rest :=
    (prefix_splitAtLast (Option.filter_eq_some_iff.1 hq).1).sublist
  have hrow {rest : Text} {q : Text × Text} (hq : row? rest = some q) : q.1.Sublist rest := by
    unfold row? at hq
    split at hq <;> cases hq
    exact List.takeWhile_sublist _
  unfold read? at h
  split at h <;> simp only [Option.map_eq_some_iff, reduceCtorEq] at h
  all_goals obtain ⟨q, hq, rfl⟩ := h
  · exact (hspan hq).cons _
  · exact (hspan hq).cons _
  · exact (hrow hq).cons _
  · exact (hrow hq).cons _
  · exact hrow hq

theorem sublist_of_mem_scan {t : Text} {part : Part} (h : part ∈ scan t) : part.text.Sublist t := by
  obtain ⟨u, rest, hu, hread⟩ := exists_read?_of_mem_scan h
  exact (sublist_read? hread).trans hu.sublist

end Part

namespace Node

/-- The tag of a node has at most `K` digits, and its other texts have no row of digits longer than
`L`. -/
structure FewDigits (K L : Nat) (node : Node) : Prop where
  tag : digitCount node.tag ≤ K
  classes : ∀ name ∈ node.classes, ShortRuns L name
  attributes : ∀ item ∈ node.attributes, ShortRuns L item
  content : ShortRuns L node.content

variable {K L : Nat} {table : Table} {node : Node}

theorem FewDigits.add {part : Part} (h : node.FewDigits K L) (hK : K ≤ L)
    (htable : ∀ entry ∈ table, digitCount entry.2 ≤ L) (hpart : digitCount part.text ≤ K) :
    (node.add table part).FewDigits K L := by
  have hcount : digitCount part.text ≤ L := hpart.trans hK
  cases part with
  | content t => exact ⟨h.tag, h.classes, h.attributes, .of_digitCount hcount⟩
  | bracket t =>
    have hitem := shortRuns_attributes hcount htable
    exact ⟨h.tag, h.classes,
      List.forall_mem_append.2 ⟨h.attributes, List.forall_mem_singleton.2 hitem⟩, h.content⟩
  | cls name =>
    have hname : ShortRuns L name := .of_digitCount hcount
    exact ⟨h.tag, List.forall_mem_append.2 ⟨h.classes, List.forall_mem_singleton.2 hname⟩,
      h.attributes, h.content⟩
  | id name =>
    have hitem : ShortRuns L ("id=\"".toList ++ name ++ ['"']) :=
      ((ShortRuns.of_digitCount hcount).digitless_append rfl).append_digitless rfl
    exact ⟨h.tag, h.classes,
      List.forall_mem_append.2 ⟨h.attributes, List.forall_mem_singleton.2 hitem⟩, h.content⟩
  | word t => exact ⟨hpart, h.classes, h.attributes, h.content⟩

theorem fewDigits_parse {t : Text} (ht : digitCount t ≤ K) (hK : K ≤ L)
    (htable : ∀ entry ∈ table, digitCount entry.2 ≤ L) : (parse table t).FewDigits K L := by
  have hparts : ∀ part ∈ Part.scan t, digitCount part.text ≤ K := fun part hpart =>
    (digitCount_le (Part.sublist_of_mem_scan hpart)).trans ht
  have hempty : FewDigits K L {} := ⟨Nat.zero_le K, by simp, by simp, .nil L⟩
  exact List.foldlRecOn (Part.scan t) (add table) hempty fun node h part hpart =>
    h.add hK htable (hparts part hpart)

theorem shortRuns_attributeText (h : node.FewDigits K L) : ShortRuns L node.attributeText := by
  rw [attributeText]
  refine ShortRuns.flatMap_cons (by decide) (List.forall_mem_append.2 ⟨?_, h.attributes⟩)
  split
  · simp
  · exact List.forall_mem_singleton.2
      (((ShortRuns.intercalate h.classes).digitless_append rfl).append_digitless rfl)

theorem head_attributeText (node : Node) : ∀ c ∈ node.attributeText.head?, isDigit c = false := by
  intro c hc
  rw [node.head_attributeText_eq c hc]
  decide

theorem shortRuns_openingFragment {tag : TagName} (h : node.FewDigits K L)
    (htag : digitCount tag.name + digitCount tag.extension ≤ L) :
    ShortRuns L (Expansion.openingFragment tag node) := by
  have hname : ShortRuns L (tag.name ++ tag.extension) :=
    .of_digitCount (by rwa [digitCount_append])
  exact .cons (by decide) <|
    (hname.append (shortRuns_attributeText h) (head_attributeText node)).append_cons (by decide)
      h.content

end Node

theorem shortRuns_closingFragment {L : Nat} {name : Text} (h : digitCount name ≤ L) :
    ShortRuns L (closingFragment name) := by
  rw [closingFragment]
  split
  · exact .nil L
  · exact .cons (by decide) <| .cons (by decide) <| (ShortRuns.of_digitCount h).append_digitless rfl

/-! ## Tables -/

/-- The number of digits of the values of a table. -/
def Table.digits (t : Table) : Nat :=
  digitCount (t.map (·.2)).flatten

/-- The number of digits of the values of all tables. -/
def Tables.digits (t : Tables) : Nat :=
  t.tags.digits + t.attributes.digits + t.extended.digits + t.implicit.digits

theorem Table.digitCount_le_of_mem {t : Table} {entry : Text × Text} (h : entry ∈ t) :
    digitCount entry.2 ≤ t.digits :=
  digitCount_le (List.sublist_flatten_of_mem (List.mem_map_of_mem h))

/-- A tag is resolved to no more digits than it and the tables have together. -/
theorem Tables.digitCount_resolve (tables : Tables) (tag : Text) (openTags fragments : List Text) :
    digitCount (tables.resolve tag openTags fragments).name +
      digitCount (tables.resolve tag openTags fragments).extension ≤
        digitCount tag + tables.digits := by
  have hname : digitCount (tables.resolve tag openTags fragments).name ≤
      digitCount tag + (tables.tags.digits + tables.implicit.digits) := by
    rcases tables.resolve_name_cases tag openTags fragments with
      hname | hname | ⟨entry, hentry, hname⟩
    · rw [hname]
      exact (digitCount_le (List.takeWhile_sublist _)).trans (Nat.le_add_right _ _)
    · rw [hname]
      exact Nat.zero_le _
    · rw [← hname]
      rcases List.mem_append.1 hentry with hentry | hentry <;>
        · have := Table.digitCount_le_of_mem hentry
          omega
  have hextension : digitCount (tables.resolve tag openTags fragments).extension ≤
      tables.extended.digits := by
    rcases tables.resolve_extension_cases tag openTags fragments with
      hextension | ⟨entry, hentry, hextension⟩
    · rw [hextension]
      exact Nat.zero_le _
    · rw [← hextension]
      exact Table.digitCount_le_of_mem hentry
  rw [digits]
  omega

end Shorthand
