import Mathlib.Algebra.Ring.Nat
import Mathlib.Data.List.Induction
import Shorthand.Proofs.DigitRuns
import Shorthand.Proofs.Lexemes
import Shorthand.Proofs.Numbering
import Shorthand.Proofs.Steps

/-!
# Expansion always succeeds

With few digits in the source and the tables, no numeral is longer than the digit limit, so every
source is expanded.

- `exists_writeNumeral`: the numbers that are written. A number to count from and the number of a
  copy, of at most `L` digits each, have a sum of at most `L + 1`.
- `Fillable L fragment`: no placeholder counts from a number of more than `L` digits. A numbered
  fragment has no placeholders at all (`not_mem_of_numberFragment`), so it is fillable again.
- `Expansion.Fillable`: all that an expansion may still repeat is fillable. `exists_step` keeps this
  up through one token, `exists_run` through all of them.
- `expand_succeeds`: every source is expanded.
-/

namespace Shorthand

/-! ## Numbers -/

theorem digitValue?_lt {c : Char} {v : Nat} (h : digitValue? c = some v) : v < 10 := by
  obtain ⟨z, hz, rfl⟩ := Option.map_eq_some_iff.1 h
  have hrange := List.find?_some hz
  simp only [Bool.and_eq_true, decide_eq_true_eq] at hrange
  omega

theorem digitsValue_lt (ds : Text) : digitsValue ds < 10 ^ ds.length := by
  induction ds using List.reverseRecOn with
  | nil => decide
  | append_singleton ds c ih =>
    have hc : (digitValue? c).getD 0 < 10 := by
      cases hv : digitValue? c with
      | none => decide
      | some v => exact digitValue?_lt hv
    have happend : digitsValue (ds ++ [c]) = 10 * digitsValue ds + (digitValue? c).getD 0 := by
      rw [digitsValue, List.foldl_append]
      rfl
    rw [happend, List.length_append, List.length_singleton, pow_succ]
    omega

theorem readNumeral_of_length {ds : Text} (h : ds.length ≤ digitLimit) :
    readNumeral ds = .ok (digitsValue ds) :=
  if_neg (by omega)

theorem exists_writeNumeral {z : Int} (h : z.natAbs < 10 ^ digitLimit) :
    ∃ t, writeNumeral z = .ok t := by
  have hlength : (decimalDigits z.natAbs).length ≤ digitLimit :=
    (Nat.length_toDigits_le_iff (by decide) (by decide)).2 h
  exact ⟨_, if_neg (by omega)⟩

variable {L : Nat}

theorem Placeholder.exists_fill {p : Placeholder} {n times : Nat} (hL : L < digitLimit)
    (hstart : p.start.length ≤ L) (htimes : times < 10 ^ L) (hn : n < times) :
    ∃ t, p.fill n times = .ok t := by
  have hread : readNumeral p.start = .ok (digitsValue p.start) := readNumeral_of_length (by omega)
  have hvalue : digitsValue p.start < 10 ^ L :=
    (digitsValue_lt p.start).trans_le (Nat.pow_le_pow_right (by decide) hstart)
  have hpow : 10 * 10 ^ L ≤ 10 ^ digitLimit := by
    rw [← pow_succ']
    exact Nat.pow_le_pow_right (by decide) hL
  obtain ⟨offset, hoffset, hbound⟩ :
      ∃ offset, p.offset times = .ok offset ∧ offset.natAbs < 10 ^ L := by
    refine ⟨_, by rw [offset, hread, ok_bind]; rfl, ?_⟩
    split
    · omega
    · split <;> omega
  -- The sum of two numbers below `10 ^ L` is below `10 ^ (L + 1)`.
  obtain ⟨value, hwrite⟩ :
      ∃ value, writeNumeral (if p.descending then offset - n else offset + n) = .ok value := by
    refine exists_writeNumeral ?_
    split <;> omega
  exact ⟨pad p.width value, by rw [fill, hoffset, ok_bind, hwrite]; rfl⟩

/-! ## Numbering -/

/-- No placeholder of the fragment counts from a number of more than `L` digits. -/
def Fillable (L : Nat) (fragment : Text) : Prop :=
  ∀ p, .slot p ∈ NumberPiece.scan fragment → p.start.length ≤ L

namespace NumberPiece

/-- What a placeholder counts from is a row of digits of the fragment. -/
theorem start_of_mem_scan {t : Text} {p : Placeholder} (h : slot p ∈ scan t) :
    p.start <:+: t ∧ ∀ c ∈ p.start, isDigit c = true := by
  fun_induction scan t with
  | case1 => cases h
  | case2 rest width after ih =>
    obtain ⟨hstart, hdigits, hafter⟩ := readStart_parts width (rest.dropWhile (· == '$'))
    have hrest : rest.dropWhile (· == '$') <:+ '$' :: rest :=
      (List.dropWhile_suffix _).trans (List.suffix_cons _ _)
    rcases List.mem_cons.1 h with h | h
    · cases h
      exact ⟨hstart.trans hrest.isInfix, hdigits⟩
    · obtain ⟨hrow, hdigits⟩ := ih h
      exact ⟨hrow.trans (hafter.trans hrest).isInfix, hdigits⟩
  | case3 c rest hc ih =>
    obtain ⟨hrow, hdigits⟩ := ih (by simpa using h)
    exact ⟨hrow.trans (List.suffix_cons c rest).isInfix, hdigits⟩

theorem mem_of_slot_mem_scan {t : Text} {p : Placeholder} (h : slot p ∈ scan t) : '$' ∈ t := by
  fun_induction scan t with
  | case1 => cases h
  | case2 => exact List.mem_cons_self
  | case3 c rest hc ih => exact List.mem_cons_of_mem _ (ih (by simpa using h))

end NumberPiece

theorem Fillable.of_shortRuns {fragment : Text} (h : ShortRuns L fragment) :
    Fillable L fragment := fun p hp => by
  obtain ⟨hrow, hdigits⟩ := NumberPiece.start_of_mem_scan hp
  exact h p.start hrow hdigits

theorem Fillable.of_not_mem {fragment : Text} (h : '$' ∉ fragment) : Fillable L fragment :=
  fun _ hp => absurd (NumberPiece.mem_of_slot_mem_scan hp) h

theorem Fillable.exists_numberFragment {fragment : Text} {n times : Nat} (h : Fillable L fragment)
    (hL : L < digitLimit) (htimes : times < 10 ^ L) (hn : n < times) :
    ∃ u, numberFragment fragment n times = .ok u := by
  obtain ⟨us, hus⟩ :
      ∃ us, (NumberPiece.scan fragment).mapM (NumberPiece.fill n times) = .ok us := by
    refine exists_mapM fun piece hpiece => ?_
    cases piece with
    | plain c => exact ⟨[c], rfl⟩
    | slot p => exact p.exists_fill hL (h p hpiece) htimes hn
  exact ⟨us.flatten, by rw [numberFragment, hus]; rfl⟩

/-- A template can be copied, and the copies can be copied again. -/
theorem exists_copies {template : List Text} {times : Nat}
    (h : ∀ fragment ∈ template, Fillable L fragment) (hL : L < digitLimit)
    (htimes : times < 10 ^ L) :
    ∃ fragments, Expansion.copies template times = .ok fragments ∧
      ∀ fragment ∈ fragments, Fillable L fragment := by
  obtain ⟨copies, hcopies⟩ : ∃ copies, (List.range times).mapM (fun n : Nat =>
      template.mapM fun fragment => numberFragment fragment n times) = .ok copies :=
    exists_mapM fun n hn => exists_mapM fun fragment hfragment =>
      (h fragment hfragment).exists_numberFragment hL htimes (List.mem_range.1 hn)
  refine ⟨copies.flatten, by rw [Expansion.copies, hcopies]; rfl, fun fragment hfragment => ?_⟩
  obtain ⟨copy, hcopy, hfragment⟩ := List.mem_flatten.1 hfragment
  obtain ⟨n, -, hnumbered⟩ := exists_mem_of_forall₂ (mapM_eq_ok_iff.1 hcopies).flip hcopy
  obtain ⟨source, -, hsource⟩ := exists_mem_of_forall₂ (mapM_eq_ok_iff.1 hnumbered).flip hfragment
  exact .of_not_mem (not_mem_of_numberFragment hsource)

/-! ## Expansions -/

namespace Expansion

/-- Everything that may still be repeated is fillable. -/
structure Fillable (L : Nat) (e : Expansion) : Prop where
  result : ∀ fragment ∈ e.result, Shorthand.Fillable L fragment
  openTags : ∀ tag ∈ e.openTags, Shorthand.Fillable L (closingFragment tag)
  lastGroup : ∀ group ∈ e.lastGroup, ∀ fragment ∈ group.fragments, Shorthand.Fillable L fragment

variable {e : Expansion}

theorem Fillable.closedResult (h : e.Fillable L) (token : Token) :
    ∀ fragment ∈ e.closedResult token, Shorthand.Fillable L fragment := by
  intro fragment hfragment
  rcases List.mem_append.1 hfragment with hfragment | hfragment
  · exact h.result fragment hfragment
  · obtain ⟨tag, htag, rfl⟩ := List.mem_map.1 hfragment
    exact h.openTags tag (List.mem_of_mem_take (List.mem_of_mem_filter htag))

theorem Fillable.operator (h : e.Fillable L) {token : Token} (ht : token.isOperator = true)
    (attributes : Table) (resolver : Resolver) :
    ∃ e', step attributes resolver e token = .ok e' ∧ e'.Fillable L := by
  refine ⟨_, step_operator ht, h.closedResult token, fun tag htag =>
    h.openTags tag (List.mem_of_mem_drop htag), fun group hgroup fragment hfragment => ?_⟩
  simp only at hgroup
  split at hgroup
  · unfold groupFrom at hgroup
    split at hgroup <;> cases hgroup
    exact h.closedResult token fragment (List.mem_of_mem_drop hfragment)
  · exact h.lastGroup group hgroup fragment hfragment

theorem Fillable.writeNode (h : e.Fillable L) {text : Text} {tables : Tables}
    (hcount : digitCount text + tables.digits ≤ L) :
    ∃ e', writeNode tables.attributes tables.resolver e text = .ok e' ∧ e'.Fillable L := by
  have htable : ∀ entry ∈ tables.attributes, digitCount entry.2 ≤ L := fun entry hentry => by
    have := Table.digitCount_le_of_mem hentry
    rw [Tables.digits] at hcount
    omega
  have hnode : (Node.parse tables.attributes text).FewDigits (digitCount text) L :=
    Node.fewDigits_parse le_rfl (by omega) htable
  have hresolve :=
    tables.digitCount_resolve (Node.parse tables.attributes text).tag e.openTags e.result
  have htag := hnode.tag
  simp only [Expansion.writeNode]
  split
  · exact ⟨_, rfl, List.forall_mem_append.2 ⟨h.result, List.forall_mem_singleton.2
      (.of_shortRuns hnode.content)⟩, h.openTags, by simp⟩
  · exact ⟨_, rfl, List.forall_mem_append.2 ⟨h.result, List.forall_mem_singleton.2
      (.of_shortRuns (Node.shortRuns_openingFragment hnode (by omega)))⟩,
      List.forall_mem_cons.2 ⟨.of_shortRuns (shortRuns_closingFragment (by omega)), h.openTags⟩,
      by simp⟩

/-- A template is fillable, and so is what is left without it. -/
theorem Fillable.takeTemplate (h : e.Fillable L) {template : List Text} {rest : Expansion}
    (ht : e.takeTemplate = some (template, rest)) :
    (∀ fragment ∈ template, Shorthand.Fillable L fragment) ∧ rest.Fillable L := by
  rcases takeTemplate_eq_some ht with
    ⟨group, hgroup, rfl, rfl⟩ | ⟨-, before, last, hresult, rfl, rfl⟩
  · exact ⟨h.lastGroup group hgroup,
      ⟨fun fragment hfragment => h.result fragment (List.mem_of_mem_take hfragment), h.openTags,
        nofun⟩⟩
  · obtain ⟨hbefore, hlast⟩ := List.forall_mem_append.1 (hresult ▸ h.result)
    refine ⟨fun fragment hfragment => ?_,
      ⟨hbefore, fun tag htag => h.openTags tag (List.mem_of_mem_tail htag), h.lastGroup⟩⟩
    rcases List.mem_pair.1 hfragment with rfl | rfl
    · exact hlast _ List.mem_cons_self
    · cases hopen : e.openTags with
      | nil => exact .of_not_mem (by simp)
      | cons tag tags => exact h.openTags tag (by simp [hopen])

theorem Fillable.repeatLast (h : e.Fillable L) {marker : Text} (hL : L < digitLimit)
    (hcount : digitCount marker ≤ L) : ∃ e', e.repeatLast marker = .ok e' ∧ e'.Fillable L := by
  have hlength : (marker.takeWhile isDigit).length ≤ L :=
    ShortRuns.of_digitCount hcount _ (List.takeWhile_prefix _).isInfix fun _ hc =>
      List.mem_takeWhile_imp hc
  have htimes : digitsValue (marker.takeWhile isDigit) < 10 ^ L :=
    (digitsValue_lt _).trans_le (Nat.pow_le_pow_right (by decide) hlength)
  rw [Expansion.repeatLast, readNumeral_of_length (by omega), ok_bind]
  cases htake : e.takeTemplate with
  | none => exact ⟨e, rfl, h⟩
  | some taken =>
    obtain ⟨template, rest⟩ := taken
    obtain ⟨htemplate, hrest⟩ := h.takeTemplate htake
    obtain ⟨fragments, hcopies, hfragments⟩ := exists_copies htemplate hL htimes
    exact ⟨{ rest with result := rest.result ++ fragments }, by simp only [hcopies]; rfl,
      List.forall_mem_append.2 ⟨hrest.result, hfragments⟩, hrest.openTags, hrest.lastGroup⟩

/-- One token of few digits is expanded, and all stays fillable. -/
theorem Fillable.exists_step (h : e.Fillable L) (hL : L < digitLimit) {token : Token}
    {tables : Tables} (hcount : digitCount token.text + tables.digits ≤ L) :
    ∃ e', step tables.attributes tables.resolver e token = .ok e' ∧ e'.Fillable L := by
  cases token with
  | node text => exact h.writeNode hcount
  | times marker =>
    have hmarker : digitCount marker ≤ digitCount ('*' :: marker) :=
      digitCount_le (List.sublist_cons_self _ _)
    exact h.repeatLast hL (hmarker.trans (by simp only [Token.text] at hcount; omega))
  | _ => exact h.operator rfl _ _

theorem Fillable.exists_run (h : e.Fillable L) (hL : L < digitLimit) {tokens : List Token}
    {tables : Tables} (hcount : ∀ token ∈ tokens, digitCount token.text + tables.digits ≤ L) :
    ∃ e', run tables.attributes tables.resolver e tokens = .ok e' := by
  induction tokens generalizing e with
  | nil => exact ⟨e, rfl⟩
  | cons token tokens ih =>
    obtain ⟨e', hstep, h'⟩ := h.exists_step hL (hcount token List.mem_cons_self)
    obtain ⟨last, hrun⟩ := ih h' fun other hother => hcount other (List.mem_cons_of_mem _ hother)
    exact ⟨last, by rw [run_cons, hstep, ok_bind, hrun]⟩

end Expansion

/-! ## Sources -/

/-- Comments are cut out of a text. -/
theorem sublist_stripComments (t : Text) : (stripComments t).Sublist t := by
  fun_induction stripComments t with
  | case1 => exact .refl _
  | case2 c rest rest' h ih =>
    exact ih.trans (suffix_afterLeadingComment h).sublist
  | case3 c rest h ih => exact ih.cons_cons c

theorem sublist_trim (p : Char → Bool) (t : Text) : (Text.trim p t).Sublist t := by
  rw [Text.trim]
  refine .trans ?_ (List.dropWhile_sublist p)
  simpa using (List.dropWhile_sublist (l := (t.dropWhile p).reverse) p).reverse

theorem digitCount_joint (reached : Int) (level : Nat) : digitCount (joint reached level) = 0 := by
  rw [joint]
  split
  · rfl
  · split
    · rfl
    · split
      · rfl
      · rw [digitCount, List.countP_replicate]
        rfl

theorem digitCount_joinLines (wide : Bool) (reached : Int) (lines : List Text) :
    digitCount (joinLines wide reached lines) ≤ digitCount lines.flatten := by
  induction lines generalizing reached with
  | nil => exact le_rfl
  | cons line lines ih =>
    have hbody := digitCount_le (sublist_trim isBlank line)
    rw [List.flatten_cons, digitCount_append, joinLines]
    split
    · exact (ih reached).trans (Nat.le_add_left _ _)
    · have hrest := ih (levelAfter wide line)
      rw [digitCount_append, digitCount_append, digitCount_joint]
      omega

theorem sublist_flatten_splitOn (sep : Char) (t : Text) : (t.splitOn sep).flatten.Sublist t := by
  induction t with
  | nil => simp
  | cons c t ih =>
    obtain ⟨first, more, hsplit⟩ := List.exists_cons_of_ne_nil (List.splitOn_ne_nil sep t)
    rw [List.splitOn_cons_eq_if_modifyHead]
    split
    · exact ih.cons c
    · rw [hsplit] at ih ⊢
      exact ih.cons_cons c

theorem digitCount_inlineIndentation (t : Text) : digitCount (inlineIndentation t) ≤ digitCount t :=
  (digitCount_joinLines _ _ _).trans (digitCount_le (sublist_flatten_splitOn '\n' t))

/-- No token has more digits than the source. -/
theorem digitCount_of_mem_sourceTokens {indented : Bool} {source : Text} {token : Token}
    (h : token ∈ sourceTokens indented source) : digitCount token.text ≤ digitCount source := by
  have hstrip : digitCount (stripComments (if indented then inlineIndentation source else source)) ≤
      digitCount source := by
    refine (digitCount_le (sublist_stripComments _)).trans ?_
    split
    · exact digitCount_inlineIndentation source
    · exact le_rfl
  obtain rfl | hsub := sublist_of_mem_tokenize h
  · exact Nat.zero_le _
  · exact (digitCount_le hsub).trans hstrip

/-- Every source is expanded when it and the values of the tables have fewer digits together than
the limit; its tokens may be handed over as texts, none of which is empty. -/
theorem expand_succeeds (tables : Tables) (indented : Bool) (o : Occasion) (files : FileTree)
    {source : Text} (h : digitCount source + tables.digits < digitLimit) :
    ∃ markup, (Compiler.expand { tables, indented } o files source).output = .ok markup ∧
      (Expansion.trace tables.attributes tables.resolver {}
        ((sourceTokens indented source).map Token.text)).2 = .ok markup := by
  have hempty : Expansion.Fillable (digitCount source + tables.digits) {} :=
    ⟨by simp, by simp, nofun⟩
  obtain ⟨e, hrun⟩ := hempty.exists_run h fun token htoken =>
    Nat.add_le_add_right (digitCount_of_mem_sourceTokens htoken) _
  refine ⟨e.finish, ?_, ?_⟩
  · rw [Compiler.output_expand rfl, Compiler.render]
    exact congrArg (Expansion.finish <$> ·) hrun
  · have hread : ∀ token ∈ sourceTokens indented source, token.IsRead := fun token htoken =>
      isRead_of_mem_tokenize htoken
    rw [Expansion.trace_texts _ _ _ hread, hrun, ok_map]

/-- Operators without a place, braces that are never closed, and numbers of any start. -/
theorem expand_succeeds_malformed :
    let tables : Tables :=
      { tags := [("a".toList, "h1".toList)], extended := [("x".toList, "2".toList)] }
    let source := ")^a:x$@34*2(\n  +*12>$$@-[b=\x7b".toList
    digitCount source + tables.digits < digitLimit ∧
      ∃ markup,
        (Compiler.expand { tables, indented := true } {} .nil source).output = .ok markup := by
  intro tables source
  have h : digitCount source + tables.digits < digitLimit := by decide +kernel
  exact ⟨h, (expand_succeeds tables true {} .nil h).imp fun _ => And.left⟩

end Shorthand
