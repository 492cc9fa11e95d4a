import Shorthand.Proofs.CacheFiles

/-!
# Sources that share an entry

Two sources have one entry of a cache exactly when their hashes are equal.

- `fnvStep_hash_inj`, `fnvStep_byte_inj`: a step of the hash loses nothing, neither of the hash so
  far nor of the byte, since the multiplier is odd and so has an inverse (`fnvStep_cancel`). So
  equal ends of two inputs keep their hashes apart (`fnv1a_append_inj`).
- `base64Url_inj`: the six digits of a key hold all 32 bits.
- `Cache.pathFor_inj`: equal paths, equal hashes.
- `fnv1a_one_byte`: sources that differ in one byte never share an entry.
- `pathFor_eq_iff_fnv1a`: the way to an entry, which no collection passes over.
-/

namespace Shorthand

/-! ## Steps of the hash -/

/-- The inverse of the multiplier, modulo `2 ^ 32`. -/
def fnvInverse : UInt32 := 0x359c449b

/-- A step of the hash, taken back. -/
theorem fnvStep_cancel (hash : UInt32) (byte : UInt8) :
    (fnvStep hash byte * fnvInverse) ^^^ byte.toUInt32 = hash := by
  have hone : (0x01000193 : UInt32) * fnvInverse = 1 := by decide
  rw [fnvStep, UInt32.mul_assoc, hone, UInt32.mul_one, UInt32.xor_assoc, UInt32.xor_self,
    UInt32.xor_zero]

theorem fnvStep_hash_inj {hash hash' : UInt32} {byte : UInt8} :
    fnvStep hash byte = fnvStep hash' byte ↔ hash = hash' := by
  constructor
  · intro h
    rw [← fnvStep_cancel hash byte, h, fnvStep_cancel]
  · rintro rfl
    rfl

theorem fnvStep_byte_inj {hash : UInt32} {a b : UInt8} :
    fnvStep hash a = fnvStep hash b ↔ a = b := by
  constructor
  · intro h
    have ha := fnvStep_cancel hash a
    rw [h] at ha
    have hxor := ha.trans (fnvStep_cancel hash b).symm
    rwa [UInt32.xor_right_inj, UInt8.toUInt32_inj] at hxor
  · rintro rfl
    rfl

theorem foldl_fnvStep_inj {hash hash' : UInt32} (s : List UInt8) :
    s.foldl fnvStep hash = s.foldl fnvStep hash' ↔ hash = hash' := by
  induction s generalizing hash hash' with
  | nil => rfl
  | cons byte s ih => rw [List.foldl_cons, List.foldl_cons, ih, fnvStep_hash_inj]

/-- Equal ends change nothing in whether two hashes are equal. -/
theorem fnv1a_append_inj {p q : List UInt8} (s : List UInt8) :
    fnv1a (p ++ s) = fnv1a (q ++ s) ↔ fnv1a p = fnv1a q := by
  rw [fnv1a, fnv1a, List.foldl_append, List.foldl_append, foldl_fnvStep_inj, fnv1a, fnv1a]

theorem fnv1a_concat (p : List UInt8) (byte : UInt8) :
    fnv1a (p ++ [byte]) = fnvStep (fnv1a p) byte := by
  rw [fnv1a, List.foldl_append]
  rfl

/-! ## Keys -/

theorem base64Char_injective {d e : Nat} (hd : d < 64) (he : e < 64)
    (h : base64Char d = base64Char e) : d = e := by
  have hall : ∀ d e : Fin 64, base64Char d = base64Char e → d = e := by decide +kernel
  exact congrArg Fin.val (hall ⟨d, hd⟩ ⟨e, he⟩ h)

/-- The last `k` digits of two numbers, one by one. -/
theorem mod_pow_eq_of_digits {b x y k : Nat} (h : ∀ i < k, x / b ^ i % b = y / b ^ i % b) :
    x % b ^ k = y % b ^ k := by
  induction k with
  | zero => rw [Nat.pow_zero, Nat.mod_one, Nat.mod_one]
  | succ k ih =>
    rw [Nat.mod_pow_succ, Nat.mod_pow_succ, h k k.lt_succ_self,
      ih fun i hi => h i (Nat.lt_succ_of_lt hi)]

/-- The six digits are all of the 36 bits that are written. -/
theorem base64Url_inj {n m : UInt32} : base64Url n = base64Url m ↔ n = m := by
  refine ⟨fun h => ?_, fun h => congrArg base64Url h⟩
  have hdigits : ∀ i < 6, n.toNat * 16 / 64 ^ i % 64 = m.toNat * 16 / 64 ^ i % 64 := by
    intro i hi
    have hshift : 6 * i ∈ [30, 24, 18, 12, 6, 0] := by
      simp only [List.mem_cons, List.not_mem_nil, or_false]
      omega
    have hchar := List.map_inj_left.1 h (6 * i) hshift
    rw [Nat.shiftRight_eq_div_pow, Nat.shiftRight_eq_div_pow, Nat.pow_mul] at hchar
    exact base64Char_injective (Nat.mod_lt _ (by decide)) (Nat.mod_lt _ (by decide)) hchar
  have hmod := mod_pow_eq_of_digits hdigits
  have hn := n.toNat_lt
  have hm := m.toNat_lt
  apply UInt32.toNat_inj.1
  omega

theorem cacheKey_inj {s t : Text} :
    cacheKey s = cacheKey t ↔ fnv1a (encodeUtf8 s) = fnv1a (encodeUtf8 t) :=
  base64Url_inj

/-! ## Entries -/

namespace Cache

/-- Two sources have one path exactly when their hashes are equal. -/
theorem pathFor_inj (c : Cache) {s t : Text} :
    c.pathFor s = c.pathFor t ↔ fnv1a (encodeUtf8 s) = fnv1a (encodeUtf8 t) := by
  rw [← cacheKey_inj, ← c.row_inj, pathFor_eq, pathFor_eq, Path.append, Path.append,
    Path.mk.injEq, List.append_cancel_left_eq, and_iff_right rfl]

end Cache

/-- **One-byte edits never collide.** Inputs that differ in one byte have different hashes. So two
sources whose bytes differ in one place have different keys, different paths in every cache, and no
file in common, whatever the file tree, when the extension does not lead upwards. -/
theorem fnv1a_one_byte (p s : List UInt8) {a b : UInt8} (h : a ≠ b) :
    fnv1a (p ++ [a] ++ s) ≠ fnv1a (p ++ [b] ++ s) ∧
    ∀ source source' : Text, encodeUtf8 source = p ++ [a] ++ s →
      encodeUtf8 source' = p ++ [b] ++ s →
      cacheKey source ≠ cacheKey source' ∧
      ∀ c : Cache, c.pathFor source ≠ c.pathFor source' ∧
        (c.StaysBelow → ∀ (t : FileTree) (row : List Text),
          t.locate (c.pathFor source) = .ok row → t.locate (c.pathFor source') ≠ .ok row) := by
  have hne : fnv1a (p ++ [a] ++ s) ≠ fnv1a (p ++ [b] ++ s) := by
    rwa [ne_eq, fnv1a_append_inj, fnv1a_concat, fnv1a_concat, fnvStep_byte_inj]
  refine ⟨hne, fun source source' hsource hsource' => ?_⟩
  have hkey : cacheKey source ≠ cacheKey source' := by
    rwa [ne_eq, cacheKey_inj, hsource, hsource']
  refine ⟨hkey, fun c => ⟨?_, fun hup t row hrow hrow' => ?_⟩⟩
  · rwa [ne_eq, c.pathFor_inj, hsource, hsource']
  · rw [Cache.locate_pathFor hup] at hrow hrow'
    obtain ⟨d, hd, rfl⟩ := map_eq_ok hrow
    rw [hd, ok_map, Except.ok.injEq, List.append_cancel_left_eq, c.row_inj] at hrow'
    exact hkey hrow'.symm

/-- `né` and `nè` differ in the second byte of their last letter. -/
theorem fnv1a_one_byte_accent :
    (169 : UInt8) ≠ 168 ∧ encodeUtf8 "né".toList = [110, 195] ++ [169] ++ [] ∧
      encodeUtf8 "nè".toList = [110, 195] ++ [168] ++ [] ∧
      fnv1a [110, 195, 169] ≠ fnv1a [110, 195, 168] ∧
      ({ directory := {} } : Cache).pathFor "né".toList ≠
        ({ directory := {} } : Cache).pathFor "nè".toList := by
  have hne : (169 : UInt8) ≠ 168 := by decide
  have hacute : encodeUtf8 "né".toList = [110, 195] ++ [169] ++ [] := by decide
  have hgrave : encodeUtf8 "nè".toList = [110, 195] ++ [168] ++ [] := by decide
  obtain ⟨hhash, hentry⟩ := fnv1a_one_byte [110, 195] [] hne
  exact ⟨hne, hacute, hgrave, hhash, ((hentry _ _ hacute hgrave).2 _).1⟩

/-- **Entries collide only when hashes do, and no collection passes them over.** The key is six
letters, digits, `-` or `_`. Below the cache directory, the way to an entry leads through as many
directories as the cache has levels, three at most. They are named by the successive pairs of
characters of the key, and none of the names is hidden. -/
theorem pathFor_eq_iff_fnv1a {c : Cache} (h : '/' ∉ c.extension) (s t : Text) :
    (c.pathFor s = c.pathFor t ↔ fnv1a (encodeUtf8 s) = fnv1a (encodeUtf8 t)) ∧
    ((cacheKey s).length = 6 ∧ ∀ ch ∈ cacheKey s, isKeyChar ch = true) ∧
    ∃ dirs : List Text,
      c.pathFor s = c.directory.append (dirs ++ [cacheKey s ++ c.extension]) ∧
      (dirs.length : Int) = min (max c.dirLevel 0) 3 ∧
      (∀ (i : Nat) (hi : i < dirs.length),
        dirs[i] = ((cacheKey s).drop (2 * i)).take 2 ∧ dirs[i].length = 2) ∧
      ∀ name ∈ dirs ++ [cacheKey s ++ c.extension], isHiddenName name = false := by
  have hlength := length_cacheKey s
  have hrow := Cache.row_of_not_mem h s
  refine ⟨c.pathFor_inj, ⟨hlength, fun ch => isKeyChar_of_mem⟩,
    Cache.shards c.dirLevel (cacheKey s), ?_, ?_, fun i hi => Cache.getElem_shards hlength hi, ?_⟩
  · rw [Cache.pathFor_eq, hrow]
  · rw [Cache.length_shards hlength]
    omega
  · intro name hname
    rw [← hrow] at hname
    exact Cache.isHiddenName_of_mem_row h hname

/-- More levels than the key has pairs of characters, and an extension that begins with a dot -/
theorem pathFor_eq_iff_fnv1a_deep :
    let c : Cache := { directory := ⟨[], [".cache".toList]⟩, dirLevel := 7 }
    '/' ∉ c.extension ∧ fnv1a (encodeUtf8 "p".toList) ≠ fnv1a (encodeUtf8 "ul".toList) ∧
      c.pathFor "p".toList ≠ c.pathFor "ul".toList ∧
      ∃ dirs : List Text, c.pathFor "p".toList =
          c.directory.append (dirs ++ [cacheKey "p".toList ++ ".xml".toList]) ∧
        dirs.length = 3 ∧ ∀ name ∈ dirs, isHiddenName name = false := by
  intro c
  have hext : '/' ∉ c.extension := by decide
  have hhash : fnv1a (encodeUtf8 "p".toList) ≠ fnv1a (encodeUtf8 "ul".toList) := by decide
  obtain ⟨hpath, -, dirs, hdirs, hlength, -, hshown⟩ :=
    pathFor_eq_iff_fnv1a hext "p".toList "ul".toList
  refine ⟨hext, hhash, fun heq => hhash (hpath.1 heq), dirs, hdirs, ?_, fun name hname => ?_⟩
  · exact Int.ofNat.inj hlength
  · exact hshown name (List.mem_append_left _ hname)

end Shorthand
