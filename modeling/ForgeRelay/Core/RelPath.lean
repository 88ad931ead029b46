import ForgeRelay.Core.Path
import Mathlib.Algebra.Group.Nat.Defs

/-!
# Relative paths

`fr_path_validate_rel` scans a path twice: the characters with a look at the next one, then the
components between the slashes. What it accepts stays below whatever root it is joined to.
-/

namespace ForgeRelay

/-- The characters that `fr_path_validate_rel` allows. -/
def isRelPathChar (c : UInt8) : Bool :=
  (97 ≤ c && c ≤ 122) || (65 ≤ c && c ≤ 90) || (48 ≤ c && c ≤ 57) || c == 46 || c == 95 ||
    c == 45 || c == 47

/-- The scan over the characters: a slash is followed by a character other than a slash. -/
def relCharsAllowed : Bytes → Bool
  | [] => true
  | c :: rest =>
    isRelPathChar c && !(c == 47 && (rest.isEmpty || rest.head? == some 47)) && relCharsAllowed rest

/-- The component is `.` or `..`. -/
def isDotComponent (component : Bytes) : Bool :=
  component.length == 1 && component.head? == some 46 ||
    component.length == 2 && component.head? == some 46 && component[1]? == some 46

/-- The scan over the components, from within one of which these bytes have been seen. -/
def dotComponentFree (component : Bytes) : Bytes → Bool
  | [] => !isDotComponent component
  | c :: rest =>
    if c = 47 then !isDotComponent component && dotComponentFree [] rest
    else dotComponentFree (component ++ [c]) rest

/-- `fr_path_validate_rel`; `none` is the null pointer. -/
def frPathValidateRel : Option Bytes → FrStatus
  | none => .eArg
  | some rel =>
    let rel := cString rel
    if rel = [] then .eRange
    else if rel.head? = some 47 ∨ rel.head? = some 92 then .eRange
    else if relCharsAllowed rel = false then .eRange
    else if dotComponentFree [] rel = false then .eRange
    else .ok

/-- What `fr_path_join` writes: one slash at the end of the root is dropped, but for the root "/"
itself. -/
def joinedPath (root rel : Bytes) : Bytes :=
  let stripped := if root.getLast? = some 47 then root.dropLast else root
  if stripped = [] then 47 :: rel else stripped ++ 47 :: rel

/-- `fr_path_join` into a buffer of this size. -/
def frPathJoin (root rel : Option Bytes) (outCap : Nat) : Except FrStatus Bytes :=
  match root, rel with
  | some root, some rel =>
    if frPathValidateRel (some rel) ≠ .ok then .error .eRange
    else
      let root := cString root
      let rel := cString rel
      if root = [] then .error .eRange
      else
        let joined := joinedPath root rel
        if 2^64 ≤ joined.length + 1 then .error .eOverflow
        else if outCap < joined.length + 1 then .error .eRange
        else .ok joined
  | _, _ => .error .eArg

/-- A component that names something in the directory itself. -/
def SafeComponent (component : Bytes) : Prop :=
  component ≠ [] ∧ (∀ c ∈ component, isIdentComponentChar c = true) ∧
    component ≠ ascii "." ∧ component ≠ ascii ".."

/-- Safe components with slashes between them. -/
def SafeRelPath (path : Bytes) : Prop :=
  ∃ components, components ≠ [] ∧ (∀ component ∈ components, SafeComponent component) ∧
    path = [47].intercalate components

private theorem isRelPathChar_iff {c : UInt8} :
    isRelPathChar c = true ↔ isIdentComponentChar c = true ∨ c = 47 := by
  simp only [isRelPathChar, isIdentComponentChar, Bool.or_eq_true, beq_iff_eq]

private theorem isDotComponent_iff {component : Bytes} :
    isDotComponent component = true ↔ component = ascii "." ∨ component = ascii ".." := by
  match component with
  | [] => decide
  | [a] => simp [isDotComponent, ascii]
  | [a, b] => simp [isDotComponent, ascii]
  | a :: b :: c :: rest => simp [isDotComponent, ascii]

private theorem SafeComponent.not_mem {component : Bytes} (h : SafeComponent component) :
    47 ∉ component := fun hmem => absurd (h.2.1 47 hmem) (by decide)

theorem safeRelPath_iff {path : Bytes} :
    SafeRelPath path ↔ ∀ component ∈ path.splitOn 47, SafeComponent component := by
  constructor
  · rintro ⟨components, hne, hsafe, rfl⟩
    rwa [List.splitOn_intercalate 47 (fun component hmem => (hsafe component hmem).not_mem) hne]
  · intro hsafe
    exact ⟨path.splitOn 47, List.splitOn_ne_nil 47 path, hsafe, (List.intercalate_splitOn 47).symm⟩

theorem splitOn_slash (path : Bytes) : (47 :: path).splitOn 47 = [] :: path.splitOn 47 := by
  rw [List.splitOn_cons_eq_if_modifyHead, if_pos (by decide)]

theorem splitOn_other {c : UInt8} (hc : c ≠ 47) (rest : Bytes) :
    (c :: rest).splitOn 47 = (rest.splitOn 47).modifyHead (c :: ·) := by
  rw [List.splitOn_cons_eq_if_modifyHead, if_neg (by simpa using hc)]

private theorem splitOn_head {path first : Bytes} {others : List Bytes}
    (h : path.splitOn 47 = first :: others) :
    first = [] ↔ (path.isEmpty || path.head? == some 47) = true := by
  cases path with
  | nil =>
    cases h
    decide
  | cons c rest =>
    by_cases hc : c = 47
    · subst c
      rw [splitOn_slash] at h
      cases h
      simp
    · rw [splitOn_other hc] at h
      obtain ⟨first', others', hsplit⟩ := List.exists_cons_of_ne_nil (List.splitOn_ne_nil 47 rest)
      rw [hsplit, List.modifyHead_cons] at h
      cases h
      simp [hc]

private theorem relCharsAllowed_iff {path : Bytes} :
    relCharsAllowed path = true ↔
      (∀ component ∈ path.splitOn 47, ∀ c ∈ component, isIdentComponentChar c = true) ∧
      ∀ component ∈ (path.splitOn 47).tail, component ≠ [] := by
  induction path with
  | nil => simp [relCharsAllowed]
  | cons c rest ih =>
    obtain ⟨first, others, hsplit⟩ := List.exists_cons_of_ne_nil (List.splitOn_ne_nil 47 rest)
    have hfirst := splitOn_head hsplit
    rw [hsplit, List.tail_cons] at ih
    rw [relCharsAllowed, Bool.and_eq_true, Bool.and_eq_true, ih]
    by_cases hc : c = 47
    · subst c
      rw [splitOn_slash, hsplit]
      have hslash : isRelPathChar 47 = true := by decide
      simp only [hslash, Bool.not_eq_true', beq_self_eq_true, Bool.true_and, List.tail_cons,
        List.forall_mem_cons, List.not_mem_nil, false_implies, implies_true, true_and]
      rw [← Bool.not_eq_true, ← hfirst]
      tauto
    · rw [splitOn_other hc, hsplit, List.modifyHead_cons]
      have hchar : isRelPathChar c = true ↔ isIdentComponentChar c = true := by
        rw [isRelPathChar_iff, or_iff_left hc]
      simp only [hchar, beq_eq_false_iff_ne.mpr hc, Bool.false_and, Bool.not_false, and_true,
        List.forall_mem_cons, List.tail_cons]
      tauto

private theorem dotComponentFree_iff {component path : Bytes} :
    dotComponentFree component path = true ↔
      ∀ whole ∈ (path.splitOn 47).modifyHead (component ++ ·), isDotComponent whole = false := by
  induction path generalizing component with
  | nil => simp [dotComponentFree]
  | cons c rest ih =>
    obtain ⟨first, others, hsplit⟩ := List.exists_cons_of_ne_nil (List.splitOn_ne_nil 47 rest)
    rw [dotComponentFree]
    by_cases hc : c = 47
    · subst c
      rw [if_pos rfl, Bool.and_eq_true, ih, splitOn_slash, hsplit]
      simp
    · rw [if_neg hc, ih, splitOn_other hc, hsplit]
      simp

theorem frPathValidateRel_ok_iff {rel : Bytes} :
    frPathValidateRel (some rel) = .ok ↔
      ¬ ((cString rel).isEmpty || (cString rel).head? == some 47) = true ∧
        relCharsAllowed (cString rel) = true ∧ dotComponentFree [] (cString rel) = true := by
  have hbackslash : (cString rel).head? = some 92 → relCharsAllowed (cString rel) = false := by
    intro hhead
    obtain ⟨rest, hrel⟩ := List.head?_eq_some_iff.mp hhead
    rw [hrel, relCharsAllowed]
    rfl
  simp only [frPathValidateRel]
  generalize cString rel = path at hbackslash
  cases path with
  | nil => simp
  | cons c rest =>
    simp only [List.head?_cons, Option.some.injEq, List.isEmpty_cons, Bool.false_or, beq_iff_eq,
      reduceCtorEq, if_false] at hbackslash ⊢
    by_cases hslash : c = 47
    · simp [hslash]
    by_cases hback : c = 92
    · rw [hbackslash hback]
      simp [hback]
    rw [if_neg (not_or.mpr ⟨hslash, hback⟩)]
    cases relCharsAllowed (c :: rest) <;> cases dotComponentFree [] (c :: rest) <;> simp [hslash]

theorem frPathValidateRel_iff {rel : Bytes} :
    frPathValidateRel (some rel) = .ok ↔ SafeRelPath (cString rel) := by
  obtain ⟨first, others, hsplit⟩ :=
    List.exists_cons_of_ne_nil (List.splitOn_ne_nil 47 (cString rel))
  have hdot {component : Bytes} : isDotComponent component = false ↔
      component ≠ ascii "." ∧ component ≠ ascii ".." := by
    rw [← Bool.not_eq_true, isDotComponent_iff, not_or]
  rw [frPathValidateRel_ok_iff, ← splitOn_head hsplit, relCharsAllowed_iff, dotComponentFree_iff,
    safeRelPath_iff, hsplit]
  simp only [List.tail_cons, List.modifyHead_cons, List.nil_append, List.forall_mem_cons,
    SafeComponent, forall_and, hdot]
  tauto

/-- A component of a path is entered: `..` leaves the directory entered last, but not the root of
the file system, and is kept at the start of a relative path. -/
def enter (absolute : Bool) (stack : List Bytes) (component : Bytes) : List Bytes :=
  if component = [] ∨ component = ascii "." then stack
  else if component = ascii ".." then
    match stack.getLast? with
    | some last => if last = ascii ".." then stack ++ [component] else stack.dropLast
    | none => if absolute then [] else [component]
  else stack ++ [component]

/-- Where a path leads, by its text alone: from the root of the file system or not, and through
which directories. -/
def resolve (path : Bytes) : Bool × List Bytes :=
  let absolute := path.head? == some 47
  (absolute, (path.splitOn 47).foldl (enter absolute) [])

private theorem enter_safe {absolute : Bool} {components stack : List Bytes}
    (h : ∀ component ∈ components, SafeComponent component) :
    components.foldl (enter absolute) stack = stack ++ components := by
  induction components generalizing stack with
  | nil => simp
  | cons component components ih =>
    obtain ⟨hsafe, hothers⟩ := List.forall_mem_cons.mp h
    obtain ⟨hne, -, hdot, hdotdot⟩ := hsafe
    rw [List.foldl_cons, ih hothers, enter, if_neg (not_or.mpr ⟨hne, hdot⟩), if_neg hdotdot,
      List.append_assoc, List.singleton_append]

theorem resolve_append {root rel : Bytes} (hroot : root ≠ [])
    (h : ∀ component ∈ rel.splitOn 47, SafeComponent component) :
    resolve (root ++ 47 :: rel) = ((resolve root).1, (resolve root).2 ++ rel.splitOn 47) := by
  have hhead : (root ++ 47 :: rel).head? = root.head? := List.head?_append_of_ne_nil root hroot
  simp only [resolve, hhead]
  rw [List.splitOn_append_cons_self, List.foldl_append, enter_safe h]

private theorem resolve_dropLast {root : Bytes} (hlast : root.getLast? = some 47)
    (hroot : root.dropLast ≠ []) : resolve root.dropLast = resolve root := by
  have hsplit : root = root.dropLast ++ [47] := by
    obtain ⟨init, rfl⟩ := List.getLast?_eq_some_iff.mp hlast
    rw [List.dropLast_concat]
  have hhead : root.head? = root.dropLast.head? := by
    conv_lhs => rw [hsplit]
    exact List.head?_append_of_ne_nil _ hroot
  have hcomponents : root.splitOn 47 = root.dropLast.splitOn 47 ++ [[]] := by
    conv_lhs => rw [hsplit]
    rw [List.splitOn_append_cons_self, List.splitOn_nil]
  simp only [resolve, hhead, hcomponents, List.foldl_append, List.foldl_cons, List.foldl_nil]
  rw [enter, if_pos (.inl rfl)]

private theorem resolve_joinedPath {root rel : Bytes} (hroot : root ≠ [])
    (h : ∀ component ∈ rel.splitOn 47, SafeComponent component) :
    resolve (joinedPath root rel) = ((resolve root).1, (resolve root).2 ++ rel.splitOn 47) := by
  unfold joinedPath
  by_cases hlast : root.getLast? = some 47
  · rw [if_pos hlast]
    by_cases hslash : root.dropLast = []
    · have hroot' : root = [47] := by
        obtain ⟨init, rfl⟩ := List.getLast?_eq_some_iff.mp hlast
        rw [List.dropLast_concat] at hslash
        rw [hslash, List.nil_append]
      rw [if_pos hslash, hroot']
      simp only [resolve, List.head?_cons, splitOn_slash]
      rw [List.foldl_cons, enter, if_pos (.inl rfl), enter_safe h]
      rfl
    · rw [if_neg hslash, resolve_append hslash h, resolve_dropLast hlast hslash]
  · rw [if_neg hlast, if_neg hroot, resolve_append hroot h]

private theorem frPathJoin_ok {root rel path : Bytes} {outCap : Nat}
    (h : frPathJoin (some root) (some rel) outCap = .ok path) :
    frPathValidateRel (some rel) = .ok ∧ cString root ≠ [] ∧
      path = joinedPath (cString root) (cString rel) := by
  simp only [frPathJoin] at h
  split at h
  · cases h
  rename_i hvalid
  split at h
  · cases h
  rename_i hroot
  split at h
  · cases h
  split at h <;> cases h
  exact ⟨not_not.mp hvalid, hroot, rfl⟩

/-- A path is accepted if and only if it is one of safe components; and what `fr_path_join` makes of
an accepted path leads on from where its root leads, through the components of the path. -/
theorem pathValidateRel_exact (rel : Bytes) :
    (frPathValidateRel (some rel) = .ok ↔ SafeRelPath (cString rel)) ∧
    ∀ root outCap path, frPathJoin (some root) (some rel) outCap = .ok path →
      resolve path = ((resolve (cString root)).1,
        (resolve (cString root)).2 ++ (cString rel).splitOn 47) ∧
      ∀ component ∈ (cString rel).splitOn 47, SafeComponent component := by
  refine ⟨frPathValidateRel_iff, fun root outCap path hjoin => ?_⟩
  obtain ⟨hvalid, hroot, rfl⟩ := frPathJoin_ok hjoin
  have hsafe := safeRelPath_iff.mp (frPathValidateRel_iff.mp hvalid)
  exact ⟨resolve_joinedPath hroot hsafe, hsafe⟩

example : frPathValidateRel (some (ascii "a/../b")) = .eRange := by decide

end ForgeRelay
