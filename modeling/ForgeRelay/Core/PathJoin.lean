import ForgeRelay.Core.Buffer
import ForgeRelay.Core.RelPath
import Mathlib.Data.List.DropRight

/-!
# Joining a root and a relative path

`fr_path_join` with the buffer that it writes into. One slash at the end of the root is dropped,
so a root that ends in two of them keeps the others.
-/

namespace ForgeRelay

/-- The size computation of `fr_path_join`, with the final zero. -/
def joinTotal (rootLen relLen : Nat) (rootIsFsRoot : Bool) : Option Nat :=
  ((frCheckedAddSize rootLen relLen).bind (frCheckedAddSize · 1)).bind fun total =>
    if rootIsFsRoot then some total else frCheckedAddSize total 1

/-- `fr_path_join` from where the length of the root that is copied is known. -/
def joinFrom (root rel : Bytes) (rootLen : Nat) (rootIsFsRoot : Bool) (out : Bytes) :
    FrStatus × Bytes :=
  match joinTotal rootLen rel.length rootIsFsRoot with
  | none => (.eOverflow, out)
  | some total =>
    if out.length < total then (.eRange, out)
    else
      let out := writeAt out 0 (root.take rootLen)
      let pos := if rootIsFsRoot then rootLen else rootLen + 1
      let out := if rootIsFsRoot then out else out.set rootLen 47
      let out := writeAt out pos rel
      (.ok, out.set (pos + rel.length) 0)

/-- `fr_path_join`; the buffer has `out_cap` bytes, and a null pointer is `none`. -/
def frPathJoinInto (root rel : Option Bytes) (out : Bytes) : FrStatus × Bytes :=
  match root, rel with
  | some root, some rel =>
    if frPathValidateRel (some rel) ≠ .ok then (.eRange, out)
    else
      let root := cString root
      let rel := cString rel
      if root = [] then (.eRange, out)
      else if root.getLast? = some 47 then
        -- the root is the root of the file system itself
        if root.length - 1 = 0 then joinFrom root rel 1 true out
        else joinFrom root rel (root.length - 1) false out
      else joinFrom root rel root.length false out
  | _, _ => (.eArg, out)

/-- The root without the slashes at its end, one slash, and the path. -/
def cleanJoin (root rel : Bytes) : Bytes := root.rdropWhile (· == 47) ++ 47 :: rel

/-- What one call is to do: it succeeds if and only if the result and its zero fit, with the result
at the start of the buffer, and otherwise writes nothing. -/
def JoinsCleanly (root rel out : Bytes) : Prop :=
  let joined := cleanJoin (cString root) (cString rel)
  let result := frPathJoinInto (some root) (some rel) out
  (result.1 = .ok ↔ joined.length + 1 ≤ out.length) ∧
  (result.1 = .ok → result.2 = joined ++ 0 :: out.drop (joined.length + 1)) ∧
  (result.1 ≠ .ok → result.2 = out)

private theorem joinTotal_eq (rootLen relLen : Nat) (rootIsFsRoot : Bool) :
    joinTotal rootLen relLen rootIsFsRoot =
      let total := rootLen + relLen + if rootIsFsRoot then 1 else 2
      if total < sizeLimit then some total else none := by
  unfold joinTotal frCheckedAddSize
  by_cases hsum : rootLen + relLen < sizeLimit
  · rw [if_pos hsum, Option.bind_some]
    by_cases hone : rootLen + relLen + 1 < sizeLimit
    · rw [if_pos hone, Option.bind_some]
      cases rootIsFsRoot
      · rfl
      · exact (if_pos hone).symm
    · rw [if_neg hone, Option.bind_none, if_neg]
      cases rootIsFsRoot <;> simp only [Bool.false_eq_true, if_false, if_true] <;> omega
  · rw [if_neg hsum, Option.bind_none, Option.bind_none, if_neg]
    cases rootIsFsRoot <;> simp only [Bool.false_eq_true, if_false, if_true] <;> omega

private theorem joinFrom_eq {root rel out : Bytes} {rootLen : Nat} (rootIsFsRoot : Bool)
    (hlen : rootLen ≤ root.length) :
    joinFrom root rel rootLen rootIsFsRoot out =
      let joined := root.take rootLen ++ if rootIsFsRoot then rel else 47 :: rel
      if sizeLimit ≤ joined.length + 1 then (.eOverflow, out)
      else if out.length < joined.length + 1 then (.eRange, out)
      else (.ok, joined ++ 0 :: out.drop (joined.length + 1)) := by
  have htake : (root.take rootLen).length = rootLen := by
    rw [List.length_take, Nat.min_eq_left hlen]
  have hroot : writeAt out 0 (root.take rootLen) = root.take rootLen ++ out.drop rootLen := by
    rw [writeAt, List.take_zero, List.nil_append, Nat.zero_add, htake]
  unfold joinFrom
  rw [joinTotal_eq, hroot]
  cases rootIsFsRoot with
  | true =>
    have htotal : (root.take rootLen ++ rel).length + 1 = rootLen + rel.length + 1 := by
      rw [List.length_append, htake]
    simp only [if_true, htotal]
    by_cases hlimit : rootLen + rel.length + 1 < sizeLimit
    · rw [if_pos hlimit, if_neg (Nat.not_le.mpr hlimit)]
      by_cases hfits : out.length < rootLen + rel.length + 1
      · simp only [if_pos hfits]
      · simp only [if_neg hfits]
        rw [writeAt_behind _ _ _ htake.symm, set_behind _ _ _ (by omega) (by omega),
          List.append_assoc, List.singleton_append]
    · rw [if_neg hlimit, if_pos (Nat.not_lt.mp hlimit)]
  | false =>
    have htotal : (root.take rootLen ++ 47 :: rel).length + 1 = rootLen + rel.length + 2 := by
      rw [List.length_append, htake, List.length_cons]
      omega
    simp only [Bool.false_eq_true, if_false, htotal]
    by_cases hlimit : rootLen + rel.length + 2 < sizeLimit
    · rw [if_pos hlimit, if_neg (Nat.not_le.mpr hlimit)]
      by_cases hfits : out.length < rootLen + rel.length + 2
      · simp only [if_pos hfits]
      · simp only [if_neg hfits]
        rw [set_behind _ _ _ htake.symm (by omega), writeAt_behind _ _ _ (by simp [htake]),
          set_behind _ _ _ (by simp; omega) (by omega)]
        have hend : rootLen + 1 + rel.length + 1 = rootLen + rel.length + 2 := by omega
        rw [hend]
        simp only [List.append_assoc, List.cons_append, List.nil_append]
    · rw [if_neg hlimit, if_pos (Nat.not_lt.mp hlimit)]

private theorem frPathJoinInto_eq (root rel : Option Bytes) (out : Bytes) :
    frPathJoinInto root rel out = match frPathJoin root rel out.length with
      | .ok joined => (.ok, joined ++ 0 :: out.drop (joined.length + 1))
      | .error e => (e, out) := by
  have hcopied {root rel joined : Bytes} {rootLen : Nat} (rootIsFsRoot : Bool)
      (hlen : rootLen ≤ root.length)
      (hjoined : joined = root.take rootLen ++ if rootIsFsRoot then rel else 47 :: rel) :
      joinFrom root rel rootLen rootIsFsRoot out =
        match (if 2^64 ≤ joined.length + 1 then .error .eOverflow
          else if out.length < joined.length + 1 then .error .eRange
          else .ok joined : Except FrStatus Bytes) with
        | .ok joined => (.ok, joined ++ 0 :: out.drop (joined.length + 1))
        | .error e => (e, out) := by
    rw [joinFrom_eq rootIsFsRoot hlen, ← hjoined]
    dsimp only
    rw [sizeLimit]
    split
    · rfl
    · split <;> rfl
  match root, rel with
  | none, _ => rfl
  | some _, none => rfl
  | some root, some rel =>
    simp only [frPathJoinInto, frPathJoin]
    by_cases hvalid : frPathValidateRel (some rel) ≠ .ok
    · rw [if_pos hvalid, if_pos hvalid]
    rw [if_neg hvalid, if_neg hvalid]
    generalize cString root = root
    by_cases hroot : root = []
    · rw [if_pos hroot, if_pos hroot]
    rw [if_neg hroot, if_neg hroot]
    have hpos : 0 < root.length := List.length_pos_of_ne_nil hroot
    by_cases hlast : root.getLast? = some 47
    · have hdrop : root.take (root.length - 1) = root.dropLast := List.dropLast_eq_take.symm
      rw [if_pos hlast]
      by_cases hone : root.length - 1 = 0
      · rw [if_pos hone]
        refine hcopied true (by omega) ?_
        obtain ⟨c, rfl⟩ := List.length_eq_one_iff.mp (by omega : root.length = 1)
        obtain rfl : c = 47 := Option.some.inj hlast
        rfl
      · rw [if_neg hone]
        refine hcopied false (by omega) ?_
        have hne : root.dropLast ≠ [] := by
          refine List.ne_nil_of_length_pos ?_
          rw [List.length_dropLast]
          omega
        rw [joinedPath, if_pos hlast, hdrop, if_neg hne]
        rfl
    · rw [if_neg hlast]
      refine hcopied false (Nat.le_refl _) ?_
      rw [joinedPath, if_neg hlast, if_neg hroot, List.take_length]
      rfl

private theorem rdropWhile_slash (root : Bytes) :
    (root ++ [47]).rdropWhile (· == 47) = root.rdropWhile (· == 47) :=
  List.rdropWhile_concat_pos _ _ _ (by decide)

private theorem joinedPath_eq_cleanJoin {root : Bytes} (rel : Bytes) (hroot : root ≠ [])
    (hclean : ¬ [47, 47] <:+ root) : joinedPath root rel = cleanJoin root rel := by
  have hkept {init : Bytes} {c : UInt8} (hc : c ≠ 47) :
      (init ++ [c]).rdropWhile (· == 47) = init ++ [c] :=
    List.rdropWhile_concat_neg _ _ _ (by simpa using hc)
  unfold joinedPath cleanJoin
  rcases List.eq_nil_or_concat' root with rfl | ⟨init, c, rfl⟩
  · exact absurd rfl hroot
  rw [List.getLast?_concat]
  by_cases hc : c = 47
  · subst c
    rw [if_pos rfl, List.dropLast_concat, rdropWhile_slash]
    rcases List.eq_nil_or_concat' init with rfl | ⟨init, d, rfl⟩
    · rfl
    · have hd : d ≠ 47 := by
        rintro rfl
        exact hclean ⟨init, by simp⟩
      rw [if_neg (by simp), hkept hd]
  · have hlast : some c ≠ some 47 := fun heq => hc (Option.some.inj heq)
    rw [if_neg hlast, if_neg hroot, hkept hc]

private theorem cleanJoin_length_lt {root : Bytes} (rel : Bytes) (htwo : [47, 47] <:+ root) :
    (cleanJoin root rel).length < (joinedPath root rel).length := by
  obtain ⟨init, rfl⟩ := htwo
  have hinit : init ++ [47, 47] = init ++ [47] ++ [47] := by simp
  have hle : (init.rdropWhile (· == 47)).length ≤ init.length :=
    (List.rdropWhile_prefix _ _).length_le
  unfold joinedPath cleanJoin
  rw [hinit, rdropWhile_slash, rdropWhile_slash, List.getLast?_concat, if_pos rfl,
    List.dropLast_concat, if_neg (by simp)]
  simp only [List.length_append, List.length_cons, List.length_nil]
  omega

private theorem zero_notMem_cleanJoin {root rel : Bytes} (hroot : 0 ∉ root) (hrel : 0 ∉ rel) :
    0 ∉ cleanJoin root rel := by
  intro hzero
  rcases List.mem_append.mp hzero with hzero | hzero
  · exact hroot ((List.rdropWhile_prefix _ _).subset hzero)
  · exact hrel ((List.mem_cons.mp hzero).resolve_left (by decide))

private theorem zero_notMem_joinedPath {root rel : Bytes} (hroot : 0 ∉ root) (hrel : 0 ∉ rel) :
    0 ∉ joinedPath root rel := by
  have hbehind {init : Bytes} (hinit : 0 ∉ init) : 0 ∉ init ++ 47 :: rel := by
    intro hzero
    rcases List.mem_append.mp hzero with hzero | hzero
    · exact hinit hzero
    · exact hrel ((List.mem_cons.mp hzero).resolve_left (by decide))
  have hdrop : 0 ∉ root.dropLast := fun hzero => hroot (List.mem_of_mem_dropLast hzero)
  have hstripped : 0 ∉ if root.getLast? = some 47 then root.dropLast else root := by
    split
    · exact hdrop
    · exact hroot
  unfold joinedPath
  generalize (if root.getLast? = some 47 then root.dropLast else root) = stripped at hstripped ⊢
  dsimp only
  split
  · exact hbehind List.not_mem_nil
  · exact hbehind hstripped

private theorem frPathJoinInto_cases {root rel out : Bytes} (hroot : cString root ≠ [])
    (hrel : frPathValidateRel (some rel) = .ok) (hcap : out.length < sizeLimit) :
    let joined := joinedPath (cString root) (cString rel)
    let result := frPathJoinInto (some root) (some rel) out
    (joined.length + 1 ≤ out.length ∧
      result = (.ok, joined ++ 0 :: out.drop (joined.length + 1))) ∨
    (out.length < joined.length + 1 ∧ result.1 ≠ .ok ∧ result.2 = out) := by
  intro joined result
  have hresult : result = match (if 2^64 ≤ joined.length + 1 then .error .eOverflow
      else if out.length < joined.length + 1 then .error .eRange
      else .ok joined : Except FrStatus Bytes) with
    | .ok joined => (.ok, joined ++ 0 :: out.drop (joined.length + 1))
    | .error e => (e, out) := by
    have heq := frPathJoinInto_eq (some root) (some rel) out
    simp only [frPathJoin, hrel, hroot, ne_eq, not_true_eq_false, if_false] at heq
    exact heq
  by_cases hlimit : 2^64 ≤ joined.length + 1
  · rw [if_pos hlimit] at hresult
    unfold sizeLimit at hcap
    rw [hresult]
    exact .inr ⟨by omega, by simp, rfl⟩
  rw [if_neg hlimit] at hresult
  by_cases hfits : out.length < joined.length + 1
  · rw [if_pos hfits] at hresult
    rw [hresult]
    exact .inr ⟨hfits, by simp, rfl⟩
  · rw [if_neg hfits] at hresult
    exact .inl ⟨by omega, hresult⟩

/-- A call on an accepted path and a root that is not empty puts the result into the buffer, with
one slash between the two, if and only if the root ends in at most one slash, or not even the
result that it should have fits. -/
theorem frPathJoin_clean_iff (root rel out : Bytes) (hroot : cString root ≠ [])
    (hrel : frPathValidateRel (some rel) = .ok) (hcap : out.length < sizeLimit) :
    JoinsCleanly root rel out ↔
      ¬ [47, 47] <:+ cString root ∨
        out.length < (cleanJoin (cString root) (cString rel)).length + 1 := by
  have hroot0 := zero_notMem_cString root
  have hrel0 := zero_notMem_cString rel
  have hcases := frPathJoinInto_cases hroot hrel hcap
  unfold JoinsCleanly
  generalize frPathJoinInto (some root) (some rel) out = result at hcases ⊢
  dsimp only at hcases ⊢
  by_cases htwo : [47, 47] <:+ cString root
  · have hlonger := cleanJoin_length_lt (cString rel) htwo
    rw [or_iff_right (not_not.mpr htwo)]
    constructor
    · rintro ⟨hiff, hok, -⟩
      by_contra hfits
      rcases hcases with ⟨-, rfl⟩ | ⟨-, hfailed, -⟩
      · have hsame := congrArg cString (hok rfl)
        rw [cString_append_zero _ (zero_notMem_joinedPath hroot0 hrel0),
          cString_append_zero _ (zero_notMem_cleanJoin hroot0 hrel0)] at hsame
        rw [hsame] at hlonger
        omega
      · exact hfailed (hiff.mpr (by omega))
    · intro hsmall
      rcases hcases with ⟨hfits, -⟩ | ⟨-, hfailed, hkept⟩
      · omega
      · exact ⟨iff_of_false hfailed (by omega), fun hok => absurd hok hfailed, fun _ => hkept⟩
  · rw [joinedPath_eq_cleanJoin _ hroot htwo] at hcases
    refine iff_of_true ?_ (.inl htwo)
    rcases hcases with ⟨hfits, rfl⟩ | ⟨hsmall, hfailed, hkept⟩
    · exact ⟨iff_of_true rfl hfits, fun _ => rfl, fun hfailed => absurd rfl hfailed⟩
    · exact ⟨iff_of_false hfailed (by omega), fun hok => absurd hok hfailed, fun _ => hkept⟩

/-- A store's directory with a slash at its end, and the file that is wanted. -/
theorem frPathJoin_clean_iff_slash :
    JoinsCleanly (ascii "/var/") (ascii "ab/cd") (List.replicate 16 0) :=
  (frPathJoin_clean_iff _ _ _ (by decide) (by decide) (by decide)).mpr (.inl (by decide))

/-- The root of the file system, written with two slashes. -/
theorem two_slashes_kept : ¬ JoinsCleanly (ascii "//") (ascii "x") (List.replicate 8 0) := by
  intro h
  exact absurd (h.2.1 (by decide)) (by decide)

end ForgeRelay
