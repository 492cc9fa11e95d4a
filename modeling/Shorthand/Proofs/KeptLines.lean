import Shorthand.Proofs.Indentation

/-!
# Joined lines

Indented writing becomes one line of its lines that are not blank, with operators between them.

- `keptLines`: the lines that are not blank.
- `joints`: what the normal form puts between each kept line and the next.
- `isJoint_joint_iff`: an operator leads from every level that is not negative, and none from a
  negative one.
- `inlineIndentation_keptLines`: two lines are joined by an operator unless the first climbs out
  below level zero.
-/

namespace Shorthand

/-! ## Kept lines -/

/-- The lines of a text that are not blank. -/
def keptLines (t : Text) : List Text :=
  (t.splitOn '\n').filter fun line => !line.all isBlank

/-- One `>`, one `+`, or one `^` or more. -/
def IsJoint (op : Text) : Prop :=
  op = ['>'] ∨ op = ['+'] ∨ ∃ n, op = List.replicate (n + 1) '^'

/-- What stands between each line and the next. -/
def joints (wide : Bool) (lines : List Text) : List Text :=
  List.zipWith (fun before line => joint (levelAfter wide before) (indentLevel wide line))
    lines lines.tail

/-- Nothing is left when blanks are cut off exactly if all is blank. -/
theorem Text.isEmpty_trim {p : Char → Bool} (t : Text) : (Text.trim p t).isEmpty = t.all p := by
  rw [Bool.eq_iff_iff, List.isEmpty_iff, List.all_eq_true, Text.trim, List.reverse_eq_nil_iff,
    List.dropWhile_eq_nil_iff]
  constructor
  · intro h
    have hrest : t.dropWhile p = [] := by
      cases hd : t.dropWhile p with
      | nil => rfl
      | cons c rest =>
        have hc : p c = true := h c (by simp [hd])
        have hnot : p c = false := by
          have := List.head_dropWhile_not p (l := t) (by simp [hd])
          simpa [hd] using this
        rw [hc] at hnot
        cases hnot
    exact List.dropWhile_eq_nil_iff.1 hrest
  · intro h c hc
    exact h c ((List.dropWhile_sublist p).subset (List.mem_reverse.1 hc))

theorem joinLines_blank {wide : Bool} {reached : Int} {line : Text} (h : line.all isBlank = true)
    (rest : List Text) : joinLines wide reached (line :: rest) = joinLines wide reached rest := by
  rw [joinLines]
  simp only [Text.isEmpty_trim, h, if_true]

theorem joinLines_kept {wide : Bool} {reached : Int} {line : Text} (h : line.all isBlank = false)
    (rest : List Text) : joinLines wide reached (line :: rest) =
      joint reached (indentLevel wide line) ++ line.trim isBlank ++
        joinLines wide (levelAfter wide line) rest := by
  rw [joinLines]
  simp only [Text.isEmpty_trim, h, Bool.false_eq_true, if_false]

/-- Blank lines are passed over. -/
theorem joinLines_filter (wide : Bool) (reached : Int) (lines : List Text) :
    joinLines wide reached (lines.filter fun line => !line.all isBlank) =
      joinLines wide reached lines := by
  induction lines generalizing reached with
  | nil => rfl
  | cons line lines ih =>
    cases h : line.all isBlank with
    | true => rw [List.filter_cons_of_neg (by simp [h]), ih, joinLines_blank h]
    | false => rw [List.filter_cons_of_pos (by simp [h]), joinLines_kept h, joinLines_kept h, ih]

/-- Lines are joined to those before them from a level that these lead to. -/
theorem exists_joinLines_append (wide : Bool) (reached : Int) (front : List Text) :
    ∃ reached', ∀ rest, joinLines wide reached (front ++ rest) =
      joinLines wide reached front ++ joinLines wide reached' rest := by
  induction front generalizing reached with
  | nil => exact ⟨reached, fun rest => rfl⟩
  | cons line front ih =>
    cases hline : line.all isBlank with
    | true =>
      obtain ⟨reached', h⟩ := ih reached
      refine ⟨reached', fun rest => ?_⟩
      rw [List.cons_append, joinLines_blank hline, joinLines_blank hline, h]
    | false =>
      obtain ⟨reached', h⟩ := ih (levelAfter wide line)
      refine ⟨reached', fun rest => ?_⟩
      rw [List.cons_append, joinLines_kept hline, joinLines_kept hline, h]
      simp only [List.append_assoc]

/-- The level that lines are joined to shows only in front of the first that is not blank. -/
theorem exists_joinLines_eq (wide : Bool) (lines : List Text) :
    ∃ rest, ∀ reached, joinLines wide reached lines =
      (lines.find? fun line => !line.all isBlank).elim []
        (fun next => joint reached (indentLevel wide next)) ++ rest := by
  induction lines with
  | nil => exact ⟨[], fun reached => rfl⟩
  | cons line lines ih =>
    cases hline : line.all isBlank with
    | true => simpa only [List.find?_cons, hline, Bool.not_true, joinLines_blank hline] using ih
    | false =>
      refine ⟨Text.trim isBlank line ++ joinLines wide (levelAfter wide line) lines, ?_⟩
      intro reached
      rw [joinLines_kept hline, List.append_assoc, List.find?_cons_of_pos (by simp [hline])]
      rfl

/-! ## Joints -/

theorem joint_below {reached : Int} {level : Nat} (hpos : 0 ≤ reached) (h : reached < level) :
    joint reached level = ['>'] := by
  rw [joint, if_neg (by omega), if_pos h]

theorem joint_beside (level : Nat) : joint level level = ['+'] := by
  rw [joint, if_neg (by omega), if_neg (by omega), if_pos rfl]

theorem joint_above {reached : Int} {level : Nat} (h : level < reached) :
    joint reached level = List.replicate (reached - level).toNat '^' := by
  rw [joint, if_neg (by omega), if_neg (by omega), if_neg (by omega)]

theorem isJoint_joint {reached : Int} (h : 0 ≤ reached) (level : Nat) :
    IsJoint (joint reached level) := by
  rw [joint, if_neg (by omega)]
  by_cases hlt : reached < level
  · rw [if_pos hlt]
    exact .inl rfl
  by_cases heq : reached = level
  · rw [if_neg hlt, if_pos heq]
    exact .inr (.inl rfl)
  · rw [if_neg hlt, if_neg heq]
    refine .inr (.inr ⟨(reached - level).toNat - 1, ?_⟩)
    congr 1
    omega

theorem not_isJoint_nil : ¬ IsJoint [] := by
  rintro (h | h | ⟨n, h⟩) <;> cases h

/-- An operator leads on from a level exactly when it is not negative. -/
theorem isJoint_joint_iff {reached : Int} {level : Nat} :
    IsJoint (joint reached level) ↔ 0 ≤ reached := by
  refine ⟨fun h => ?_, fun h => isJoint_joint h level⟩
  by_contra hneg
  rw [joint, if_pos (by omega)] at h
  exact not_isJoint_nil h

theorem joint_eq_nil_iff {reached : Int} {level : Nat} :
    joint reached level = [] ↔ reached < 0 := by
  constructor
  · intro h
    by_contra hneg
    have hjoint := isJoint_joint (Int.not_lt.1 hneg) level
    rw [h] at hjoint
    exact not_isJoint_nil hjoint
  · intro h
    rw [joint, if_pos h]

/-- One level more is not seen when both are negative, or both are less than that of the line. -/
theorem joint_add_one_iff {reached : Int} {level : Nat} :
    joint (reached + 1) level = joint reached level ↔
      reached < -1 ∨ 0 ≤ reached ∧ reached + 1 < level := by
  rcases Int.lt_or_le reached (-1) with hneg | hneg
  · rw [joint_eq_nil_iff.2 (by omega), joint_eq_nil_iff.2 (by omega)]
    simp [hneg]
  rcases Int.lt_or_le reached 0 with hzero | hpos
  · -- from level -1 no operator leads, and from level 0 one does
    rw [joint_eq_nil_iff.2 hzero, joint_eq_nil_iff]
    omega
  rcases Int.lt_trichotomy (reached + 1) level with hlt | heq | hgt
  · rw [joint_below (by omega) hlt, joint_below hpos (by omega)]
    simp [hpos, hlt]
  · rw [joint_below hpos (by omega), heq, joint_beside]
    simp [hneg]
  · have hclimb := joint_above hgt
    rcases Int.lt_or_eq_of_le (show (level : Int) ≤ reached by omega) with hlt | rfl
    · rw [hclimb, joint_above hlt, List.replicate_left_inj]
      omega
    · have hone : ((level : Int) + 1 - level).toNat = 1 := by omega
      rw [hclimb, joint_beside, hone]
      exact iff_of_false (by decide) (by omega)

theorem mem_joint {reached : Int} {level : Nat} {c : Char} (h : c ∈ joint reached level) :
    c = '>' ∨ c = '+' ∨ c = '^' := by
  unfold joint at h
  split at h
  · cases h
  · split at h
    · exact .inl (List.mem_singleton.1 h)
    · split at h
      · exact .inr (.inl (List.mem_singleton.1 h))
      · exact .inr (.inr (List.mem_replicate.1 h).2)

theorem Text.mem_trim {p : Char → Bool} {t : Text} {c : Char} (h : c ∈ Text.trim p t) : c ∈ t := by
  have h := (List.dropWhile_sublist p).subset (List.mem_reverse.1 h)
  exact (List.dropWhile_sublist p).subset (List.mem_reverse.1 h)

/-- Joining brings in operators only. -/
theorem all_joinLines {p : Char → Bool} (hp : "+>^".toList.all p = true) {lines : List Text}
    (h : ∀ line ∈ lines, line.all p = true) (wide : Bool) (reached : Int) :
    (joinLines wide reached lines).all p = true := by
  induction lines generalizing reached with
  | nil => rfl
  | cons line lines ih =>
    obtain ⟨hline, hlines⟩ := List.forall_mem_cons.1 h
    cases hblank : line.all isBlank with
    | true =>
      rw [joinLines_blank hblank]
      exact ih hlines reached
    | false =>
      rw [joinLines_kept hblank, List.all_append, List.all_append, ih hlines, Bool.and_true,
        Bool.and_eq_true, List.all_eq_true, List.all_eq_true]
      refine ⟨fun c hc => List.all_eq_true.1 hp c ?_,
        fun c hc => List.all_eq_true.1 hline c (Text.mem_trim hc)⟩
      rcases mem_joint hc with rfl | rfl | rfl <;> decide

theorem joinLines_cons (wide : Bool) (reached : Int) {first : Text} {rest : List Text}
    (h : ∀ line ∈ first :: rest, line.all isBlank = false) :
    joinLines wide reached (first :: rest) =
      (List.zipWith (fun op line => op ++ Text.trim isBlank line)
        (joint reached (indentLevel wide first) :: joints wide (first :: rest))
        (first :: rest)).flatten := by
  induction rest generalizing reached first with
  | nil =>
    rw [joinLines_kept (h first List.mem_cons_self)]
    simp [joints, joinLines]
  | cons second rest ih =>
    rw [joinLines_kept (h first List.mem_cons_self),
      ih _ fun line hline => h line (List.mem_cons_of_mem _ hline)]
    rfl

theorem getElem?_joints {wide : Bool} {lines : List Text} {i : Nat} {op : Text}
    (h : (joints wide lines)[i]? = some op) :
    ∃ before line, lines[i]? = some before ∧ lines[i + 1]? = some line ∧
      op = joint (levelAfter wide before) (indentLevel wide line) := by
  obtain ⟨before, line, hbefore, hline, rfl⟩ := List.getElem?_zipWith_eq_some.1 h
  rw [List.getElem?_tail] at hline
  exact ⟨before, line, hbefore, hline, rfl⟩

theorem length_joints (wide : Bool) (lines : List Text) :
    (joints wide lines).length = lines.length - 1 := by
  simp [joints]

theorem isJoint_joints_iff (wide : Bool) (lines : List Text) :
    (∀ op ∈ joints wide lines, IsJoint op) ↔
      ∀ line ∈ lines.dropLast, 0 ≤ levelAfter wide line := by
  induction lines with
  | nil => simp [joints]
  | cons line lines ih =>
    cases lines with
    | nil => simp [joints]
    | cons second rest =>
      have hjoints : joints wide (line :: second :: rest) =
          joint (levelAfter wide line) (indentLevel wide second) ::
            joints wide (second :: rest) := rfl
      rw [hjoints, List.dropLast_cons_cons, List.forall_mem_cons, List.forall_mem_cons, ih,
        isJoint_joint_iff]

/-- The normal form is its kept lines with what stands between them. -/
theorem inlineIndentation_eq_flatten (t : Text) :
    inlineIndentation t =
      (List.zipWith (fun op line => op ++ Text.trim isBlank line)
        ([] :: joints (usesWideUnits (t.splitOn '\n')) (keptLines t)) (keptLines t)).flatten := by
  have hjoin : inlineIndentation t =
      joinLines (usesWideUnits (t.splitOn '\n')) (-1) (keptLines t) :=
    (joinLines_filter _ (-1) (t.splitOn '\n')).symm
  have hkept : ∀ line ∈ keptLines t, line.all isBlank = false := by
    intro line hline
    simpa using (List.mem_filter.1 hline).2
  rw [hjoin]
  cases hlines : keptLines t with
  | nil => rfl
  | cons first rest =>
    rw [hlines] at hkept
    rw [joinLines_cons _ (-1) hkept]
    rfl

/-- **Kept lines are joined by operators**, the first of them apart, unless one climbs out below
level zero: between a line and the next stands an operator exactly when the level after the line is
not negative, and nothing otherwise. -/
theorem inlineIndentation_keptLines (t : Text) :
    let wide := usesWideUnits (t.splitOn '\n')
    let lines := keptLines t
    let ops := joints wide lines
    inlineIndentation t =
      (List.zipWith (fun op line => op ++ Text.trim isBlank line) ([] :: ops) lines).flatten ∧
    ops.length = lines.length - 1 ∧
    (∀ (i : Nat) (before op : Text), lines[i]? = some before → ops[i]? = some op →
      (IsJoint op ↔ 0 ≤ levelAfter wide before) ∧ (op = [] ↔ levelAfter wide before < 0)) ∧
    ((∀ op ∈ ops, IsJoint op) ↔ ∀ line ∈ lines.dropLast, 0 ≤ levelAfter wide line) := by
  intro wide lines ops
  refine ⟨inlineIndentation_eq_flatten t, length_joints wide lines, ?_,
    isJoint_joints_iff wide lines⟩
  intro i before op hbefore hop
  obtain ⟨before', line, hb, -, rfl⟩ := getElem?_joints hop
  obtain rfl : before = before' := Option.some.inj (hbefore.symm.trans hb)
  exact ⟨isJoint_joint_iff, joint_eq_nil_iff⟩

/-- `a^b` climbs out below level zero -/
theorem inlineIndentation_unjoined :
    let t := "a^b\nc".toList
    keptLines t = ["a^b".toList, ['c']] ∧ inlineIndentation t = "a^bc".toList ∧
      ∀ op, IsJoint op → inlineIndentation t ≠ "a^b".toList ++ op ++ ['c'] := by
  intro t
  have hinline : inlineIndentation t = "a^bc".toList := by decide +kernel
  refine ⟨by decide +kernel, hinline, ?_⟩
  intro op hop heq
  have hlength := congrArg List.length heq
  rw [hinline] at hlength
  obtain rfl : op = [] := by simpa using hlength
  exact not_isJoint_nil hop

end Shorthand
