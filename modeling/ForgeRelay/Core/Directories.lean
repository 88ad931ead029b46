import ForgeRelay.Core.FdIo
import ForgeRelay.Core.RelPath
import ForgeRelay.Lib.DirTree

/-!
# Making directories

`fr_dir_create` and `fr_dir_create_all` on a tree of directories and files. The loop skips segments
of two characters with a colon behind the first, which are drives elsewhere and names here.
-/

namespace ForgeRelay

open DirTree (FileTree Move)

def frPathBufMax : Nat := 1024

/-- What a component of a path stands for. -/
def moveOf (component : Bytes) : Move Bytes :=
  if component = [] ∨ component = ascii "." then .stay
  else if component = ascii ".." then .up
  else .down component

/-- The components of a path. -/
def movesOf (path : Bytes) : List (Move Bytes) := (path.splitOn 47).map moveOf

/-- Where a path starts: at the root, or in the working directory. -/
def startOf (cwd : List Bytes) (path : Bytes) : List Bytes :=
  if path.head? = some 47 then [] else cwd

/-- The `errno` of a failed system call. -/
def errnoOf : DirTree.Failure → Nat
  | .missing => enoent
  | .notDir => enotdir
  | .occupied => eexist
  | .denied errno => errno

section

variable (strerror : Nat → Bytes) (denied : List Bytes → Option Nat) (cwd : List Bytes)

/-- `fr_dir_create`, and the tree after it. -/
def frDirCreate (t : FileTree Bytes) (path : Bytes) : Except FrError Unit × FileTree Bytes :=
  if path = [] then (.error (frErrorSet .eArg (ascii "mkdir: null or empty path")), t)
  else
    match DirTree.mkdir denied t (startOf cwd path) (movesOf path) with
    | .ok t' => (.ok (), t')
    | .error e =>
      if errnoOf e = eexist then
        match DirTree.stat t (startOf cwd path) (movesOf path) with
        | .error e => (.error (mapErrno strerror (errnoOf e) (ascii "mkdir stat")), t)
        | .ok .dir => (.ok (), t)
        | .ok .file =>
          (.error (frErrorSet .eExists (ascii "mkdir: path exists and is not a directory")), t)
      else (.error (mapErrno strerror (errnoOf e) (ascii "mkdir")), t)

/-- The segments that `fr_dir_create_all` skips: the empty ones and what looks like a drive. -/
def skipsSegment (segment : Bytes) : Bool :=
  segment.length == 0 || (segment.length == 2 && segment[1]? == some 58)

/-- What the loop does at the end of a segment, with the path up to there. -/
def createSegment (t : FileTree Bytes) (done segment : Bytes) :
    Except FrError Unit × FileTree Bytes :=
  if skipsSegment segment then (.ok (), t) else frDirCreate strerror denied cwd t done

/-- The loop of `fr_dir_create_all`: the path up to `i`, and what of it is behind `start`. -/
def createAllLoop (t : FileTree Bytes) (done segment : Bytes) :
    Bytes → Except FrError Unit × FileTree Bytes
  | [] => createSegment strerror denied cwd t done segment
  | c :: rest =>
    if c = 47 then
      match createSegment strerror denied cwd t done segment with
      | (.ok (), t') => createAllLoop t' (done ++ [c]) [] rest
      | (.error e, t') => (.error e, t')
    else createAllLoop t (done ++ [c]) (segment ++ [c]) rest

/-- `fr_dir_create_all`, and the tree after it; `none` is the null pointer. -/
def frDirCreateAll (t : FileTree Bytes) (path : Option Bytes) :
    Except FrError Unit × FileTree Bytes :=
  match path with
  | none => (.error (frErrorSet .eArg (ascii "mkdir_all: null or empty path")), t)
  | some path =>
    match cString path with
    | [] => (.error (frErrorSet .eArg (ascii "mkdir_all: null or empty path")), t)
    | c :: rest =>
      if frPathBufMax ≤ (c :: rest).length then
        (.error (frErrorSet .eRange (ascii "mkdir_all: path too long")), t)
      else createAllLoop strerror denied cwd t [c] [c] rest

end

/-- The path up to the end of one of its components. -/
def PathPrefix (p path : Bytes) : Prop := p ≠ [] ∧ (p = path ∨ ∃ rest, path = p ++ 47 :: rest)

/-- What `mkdir -p` is: if it succeeds then every prefix of the path is a directory; it makes
nothing but prefixes of the path; and it succeeds if no prefix is a file and no making is denied. -/
def MakesPath (path : Bytes) : Prop :=
  ∀ (strerror : Nat → Bytes) (denied : List Bytes → Option Nat) (cwd : List Bytes)
    (t : FileTree Bytes), DirTree.Closed t → t cwd = some .dir →
    let result := frDirCreateAll strerror denied cwd t (some path)
    (result.1 = .ok () → ∀ p, PathPrefix p path →
      DirTree.stat result.2 (startOf cwd p) (movesOf p) = .ok .dir) ∧
    (∀ other, result.2 other ≠ t other → t other = none ∧ result.2 other = some .dir ∧
      ∃ p, PathPrefix p path ∧ other = DirTree.place (startOf cwd p) (movesOf p)) ∧
    ((∀ p, PathPrefix p path → t (DirTree.place (startOf cwd p) (movesOf p)) ≠ some .file) →
      (∀ other, denied other = none) → result.1 = .ok ())

/-- A component and whether its segment is skipped. -/
def itemOf (component : Bytes) : Move Bytes × Bool := (moveOf component, skipsSegment component)

/-- The components behind the start, the first segment having this in front of it. -/
def itemsFrom (lead : Bytes) : List Bytes → List (Move Bytes × Bool)
  | [] => []
  | component :: components =>
    (moveOf component, skipsSegment (lead ++ component)) :: components.map itemOf

/-- The components of a path; the first segment of an absolute path is the slash and a name. -/
def itemsOf (path : Bytes) : List (Move Bytes × Bool) :=
  if path.head? = some 47 then itemsFrom [47] (path.tail.splitOn 47)
  else itemsFrom [] (path.splitOn 47)

/-- What stands before the components. -/
def frontOf (path : Bytes) : List (Move Bytes) := if path.head? = some 47 then [.stay] else []

/-- Every segment that is skipped is empty, or leads on an absolute path, by the names alone, to
where a prefix before it leads. -/
def SkipsKnown (path : Bytes) : Prop :=
  if path.head? = some 47 then DirTree.Covered [[]] [] (itemsOf path)
  else ∀ item ∈ itemsOf path, item.2 = true → item.1 = .stay

instance (path : Bytes) : Decidable (SkipsKnown path) := by
  unfold SkipsKnown
  infer_instance

private theorem itemsFrom_moves (lead : Bytes) (components : List Bytes) :
    (itemsFrom lead components).map Prod.fst = components.map moveOf := by
  cases components with
  | nil => rfl
  | cons component components => simp [itemsFrom, itemOf, Function.comp_def]

private theorem itemsFrom_nil_lead (components : List Bytes) :
    itemsFrom [] components = components.map itemOf := by
  cases components <;> rfl

private theorem movesOf_eq (path : Bytes) :
    movesOf path = frontOf path ++ (itemsOf path).map Prod.fst := by
  unfold frontOf itemsOf
  split
  · rename_i hhead
    obtain ⟨rest, rfl⟩ := List.head?_eq_some_iff.mp hhead
    rw [movesOf, splitOn_slash, List.tail_cons, itemsFrom_moves]
    rfl
  · rw [itemsFrom_moves]
    rfl

section

variable {strerror : Nat → Bytes} {denied : List Bytes → Option Nat} {cwd : List Bytes}
  {t : FileTree Bytes} {path : Bytes}

/-- A call succeeds with this tree, or fails with it. -/
def Agrees (result : Except FrError Unit × FileTree Bytes) (outcome : Bool × FileTree Bytes) :
    Prop :=
  (result.1 = .ok () ↔ outcome.1 = true) ∧ result.2 = outcome.2

private theorem frDirCreate_agrees (hpath : path ≠ []) :
    Agrees (frDirCreate strerror denied cwd t path)
      (match DirTree.ensure denied t (startOf cwd path) (movesOf path) with
        | some t' => (true, t')
        | none => (false, t)) := by
  have hfailed (e : FrError) :
      Agrees ((.error e : Except FrError Unit), t) (false, t) :=
    ⟨iff_of_false nofun nofun, rfl⟩
  unfold frDirCreate DirTree.ensure
  rw [if_neg hpath]
  cases hmkdir : DirTree.mkdir denied t (startOf cwd path) (movesOf path) with
  | ok t' => exact ⟨iff_of_true rfl rfl, rfl⟩
  | error e =>
    cases e with
    | missing => exact hfailed _
    | notDir => exact hfailed _
    | occupied =>
      have hexists : errnoOf .occupied = eexist := rfl
      dsimp only
      rw [if_pos hexists]
      cases hstat : DirTree.stat t (startOf cwd path) (movesOf path) with
      | error e => exact hfailed _
      | ok node =>
        cases node with
        | dir => exact ⟨iff_of_true rfl rfl, rfl⟩
        | file => exact hfailed _
    | denied errno =>
      have hstat := DirTree.stat_of_denied hmkdir
      dsimp only
      split
      · split
        · exact hfailed _
        · rename_i hdir
          exact absurd hdir (hstat .dir)
        · exact hfailed _
      · exact hfailed _

private theorem splitOn_front {front : List Bytes} {component : Bytes}
    (hfront : ∀ c ∈ front, 47 ∉ c) (hcomponent : 47 ∉ component) :
    (front.flatMap (· ++ [47]) ++ component).splitOn 47 = front ++ [component] := by
  induction front with
  | nil => exact List.splitOn_eq_singleton hcomponent
  | cons first front ih =>
    obtain ⟨hfirst, hothers⟩ := List.forall_mem_cons.mp hfront
    rw [List.flatMap_cons, List.append_assoc, List.append_assoc, List.singleton_append,
      List.splitOn_append_cons_self, List.splitOn_eq_singleton hfirst, ih hothers]
    rfl

private theorem createSegment_agrees {front : List Bytes} {component lead rest : Bytes}
    (hfront : ∀ c ∈ front, 47 ∉ c) (hcomponent : 47 ∉ component) (hlead : lead ≠ [] → front ≠ [])
    (hpath : path = front.flatMap (· ++ [47]) ++ component ++ rest) :
    Agrees (createSegment strerror denied cwd t (front.flatMap (· ++ [47]) ++ component)
        (lead ++ component))
      (DirTree.ensureAll denied (startOf cwd path) t (front.map moveOf)
        [(moveOf component, skipsSegment (lead ++ component))]) := by
  have hmoves : movesOf (front.flatMap (· ++ [47]) ++ component) =
      front.map moveOf ++ [moveOf component] := by
    rw [movesOf, splitOn_front hfront hcomponent, List.map_append, List.map_singleton]
  unfold createSegment
  cases hskip : skipsSegment (lead ++ component) with
  | true => exact ⟨iff_of_true rfl rfl, rfl⟩
  | false =>
    have hdone : front.flatMap (· ++ [47]) ++ component ≠ [] := by
      intro hnil
      obtain ⟨hflat, rfl⟩ := List.append_eq_nil_iff.mp hnil
      have hfront' : front = [] := by
        rcases front with _ | ⟨first, front⟩
        · rfl
        · simp at hflat
      have hlead' : lead = [] := by
        by_contra hne
        exact hlead hne hfront'
      rw [hlead'] at hskip
      cases hskip
    have hstart : startOf cwd path = startOf cwd (front.flatMap (· ++ [47]) ++ component) := by
      rw [startOf, startOf, hpath, List.head?_append_of_ne_nil _ hdone]
    have hcreate := @frDirCreate_agrees strerror denied cwd t _ hdone
    rw [hstart, DirTree.ensureAll, ← hmoves, if_neg Bool.false_ne_true]
    generalize DirTree.ensure denied t _ _ = made at hcreate ⊢
    cases made <;> exact hcreate

/-- The loop is the making of the directories that the items lead to: behind the components before,
within a component, with what the segment has in front of it. -/
private theorem createAllLoop_agrees {front : List Bytes} {component lead rest : Bytes}
    (hfront : ∀ c ∈ front, 47 ∉ c) (hcomponent : 47 ∉ component) (hlead : lead ≠ [] → front ≠ [])
    (hpath : path = front.flatMap (· ++ [47]) ++ component ++ rest) :
    Agrees (createAllLoop strerror denied cwd t (front.flatMap (· ++ [47]) ++ component)
        (lead ++ component) rest)
      (DirTree.ensureAll denied (startOf cwd path) t (front.map moveOf)
        (itemsFrom lead ((component ++ rest).splitOn 47))) := by
  induction rest generalizing front component lead t with
  | nil =>
    rw [List.append_nil, List.splitOn_eq_singleton hcomponent, createAllLoop]
    exact createSegment_agrees hfront hcomponent hlead hpath
  | cons c rest ih =>
    rw [createAllLoop]
    by_cases hc : c = 47
    · subst c
      have hsegment := @createSegment_agrees strerror denied cwd t path front component lead
        (47 :: rest) hfront hcomponent hlead hpath
      rw [if_pos rfl, List.splitOn_append_cons_self, List.splitOn_eq_singleton hcomponent,
        List.singleton_append, itemsFrom, DirTree.ensureAll_cons]
      generalize createSegment strerror denied cwd t (front.flatMap (· ++ [47]) ++ component)
        (lead ++ component) = result at hsegment ⊢
      generalize DirTree.ensureAll denied (startOf cwd path) t (front.map moveOf)
        [(moveOf component, skipsSegment (lead ++ component))] = outcome at hsegment ⊢
      obtain ⟨result, t'⟩ := result
      obtain ⟨outcome, t''⟩ := outcome
      obtain ⟨hok, rfl⟩ := hsegment
      cases result with
      | error e =>
        cases outcome with
        | true => cases hok.mpr rfl
        | false => exact ⟨iff_of_false nofun nofun, rfl⟩
      | ok _ =>
        obtain rfl : outcome = true := hok.mp rfl
        have hfront' : ∀ c ∈ front ++ [component], 47 ∉ c :=
          List.forall_mem_append.mpr ⟨hfront, by simpa using hcomponent⟩
        have hpath' : path = (front ++ [component]).flatMap (· ++ [47]) ++ [] ++ rest := by
          rw [hpath]
          simp
        have hrest := @ih t' (front ++ [component]) [] [] hfront' List.not_mem_nil
          (fun h => absurd rfl h) hpath'
        rw [List.flatMap_append, List.flatMap_singleton, List.append_nil, List.append_nil,
          List.nil_append, List.map_append, List.map_singleton, itemsFrom_nil_lead,
          ← List.append_assoc] at hrest
        exact hrest
    · have hcomponent' : 47 ∉ component ++ [c] := by
        simp [hcomponent, Ne.symm hc]
      have hpath' : path = front.flatMap (· ++ [47]) ++ (component ++ [c]) ++ rest := by
        rw [hpath]
        simp
      have hrest := @ih t front (component ++ [c]) lead hfront hcomponent' hlead hpath'
      rw [if_neg hc]
      simpa only [List.append_assoc, List.singleton_append] using hrest

private theorem frDirCreateAll_agrees (hpath : path ≠ []) (hstring : 0 ∉ path)
    (hshort : path.length < frPathBufMax) :
    Agrees (frDirCreateAll strerror denied cwd t (some path))
      (DirTree.ensureAll denied (startOf cwd path) t (frontOf path) (itemsOf path)) := by
  unfold frDirCreateAll
  dsimp only
  rw [cString_eq_self hstring]
  rcases path with _ | ⟨c, rest⟩
  · exact absurd rfl hpath
  dsimp only
  rw [if_neg (Nat.not_le.mpr hshort)]
  by_cases hc : c = 47
  · subst c
    have hlead : ([47] : Bytes) ≠ [] → [([] : Bytes)] ≠ [] := fun _ => List.cons_ne_nil _ _
    exact @createAllLoop_agrees strerror denied cwd t (47 :: rest) [[]] [] [47] rest
      (by simp) List.not_mem_nil hlead rfl
  · have hhead : (c :: rest).head? ≠ some 47 := by simpa using hc
    have hloop := @createAllLoop_agrees strerror denied cwd t (c :: rest) [] [c] [] rest
      (by simp) (by simpa using Ne.symm hc) (fun h => absurd rfl h) rfl
    rw [frontOf, itemsOf, if_neg hhead, if_neg hhead]
    exact hloop

end

private theorem exists_part (path : Bytes) (n : Nat) (hn : n < (path.splitOn 47).length) :
    ∃ p, (p = path ∨ ∃ rest, path = p ++ 47 :: rest) ∧
      p.splitOn 47 = (path.splitOn 47).take (n + 1) := by
  induction path generalizing n with
  | nil => exact ⟨[], .inl rfl, by simp⟩
  | cons c rest ih =>
    by_cases hc : c = 47
    · subst c
      rw [splitOn_slash] at hn ⊢
      cases n with
      | zero => exact ⟨[], .inr ⟨rest, rfl⟩, by simp⟩
      | succ n =>
        obtain ⟨p, hp, hsplit⟩ := ih n (by simpa using hn)
        refine ⟨47 :: p, ?_, by rw [splitOn_slash, hsplit, List.take_succ_cons]⟩
        rcases hp with rfl | ⟨more, rfl⟩
        · exact .inl rfl
        · exact .inr ⟨more, rfl⟩
    · rw [splitOn_other hc] at hn ⊢
      obtain ⟨p, hp, hsplit⟩ := ih n (by simpa using hn)
      refine ⟨c :: p, ?_, ?_⟩
      · rcases hp with rfl | ⟨more, rfl⟩
        · exact .inl rfl
        · exact .inr ⟨more, rfl⟩
      · obtain ⟨first, others, hcomponents⟩ :=
          List.exists_cons_of_ne_nil (List.splitOn_ne_nil 47 rest)
        rw [splitOn_other hc, hsplit, hcomponents, List.take_succ_cons, List.modifyHead_cons,
          List.modifyHead_cons, List.take_succ_cons]

private theorem itemsFrom_append (lead : Bytes) {components : List Bytes} (more : List Bytes)
    (hne : components ≠ []) :
    itemsFrom lead (components ++ more) = itemsFrom lead components ++ more.map itemOf := by
  rcases components with _ | ⟨component, components⟩
  · exact absurd rfl hne
  · rw [List.cons_append, itemsFrom, itemsFrom, List.map_append, List.cons_append]

theorem PathPrefix.items {p path : Bytes} (h : PathPrefix p path) :
    itemsOf p ≠ [] ∧ itemsOf p <+: itemsOf path ∧ frontOf p = frontOf path ∧
      ∀ cwd, startOf cwd p = startOf cwd path := by
  obtain ⟨hne, hpart⟩ := h
  have hitems : itemsOf p ≠ [] := by
    intro hnil
    have hmoves := congrArg (List.map Prod.fst) hnil
    unfold itemsOf at hmoves
    split at hmoves <;> rw [itemsFrom_moves, List.map_nil, List.map_eq_nil_iff] at hmoves <;>
      exact List.splitOn_ne_nil 47 _ hmoves
  refine ⟨hitems, ?_⟩
  rcases hpart with rfl | ⟨rest, rfl⟩
  · exact ⟨List.prefix_refl _, rfl, fun _ => rfl⟩
  have hhead : (p ++ 47 :: rest).head? = p.head? := List.head?_append_of_ne_nil p hne
  refine ⟨?_, by rw [frontOf, frontOf, hhead], fun cwd => by rw [startOf, startOf, hhead]⟩
  unfold itemsOf
  rw [hhead]
  split
  · have htail : (p ++ 47 :: rest).tail = p.tail ++ 47 :: rest := List.tail_append_of_ne_nil hne
    rw [htail, List.splitOn_append_cons_self, itemsFrom_append _ _ (List.splitOn_ne_nil 47 _)]
    exact List.prefix_append _ _
  · rw [List.splitOn_append_cons_self, itemsFrom_append _ _ (List.splitOn_ne_nil 47 _)]
    exact List.prefix_append _ _

private theorem PathPrefix.movesOf {p path : Bytes} (h : PathPrefix p path) :
    ForgeRelay.movesOf p = frontOf path ++ (itemsOf p).map Prod.fst := by
  rw [movesOf_eq, h.items.2.2.1]

private theorem exists_pathPrefix {path : Bytes} {done : List (Move Bytes × Bool)}
    (hpath : path ≠ []) (hne : done ≠ []) (hdone : done <+: itemsOf path) :
    ∃ p, PathPrefix p path ∧ movesOf p = frontOf path ++ done.map Prod.fst := by
  obtain ⟨n, hn⟩ : ∃ n, done.length = n + 1 :=
    Nat.exists_eq_succ_of_ne_zero fun hzero => hne (List.length_eq_zero_iff.mp hzero)
  have htake : done.map Prod.fst = ((itemsOf path).map Prod.fst).take (n + 1) := by
    rw [← List.map_take, ← hn, ← List.prefix_iff_eq_take.mp hdone]
  have hle := hdone.length_le
  rw [htake]
  unfold itemsOf at hle ⊢
  unfold frontOf
  by_cases hhead : path.head? = some 47
  · obtain ⟨rest, rfl⟩ := List.head?_eq_some_iff.mp hhead
    rw [if_pos hhead, List.tail_cons] at hle
    rw [if_pos hhead, if_pos hhead, List.tail_cons, itemsFrom_moves, ← List.map_take]
    have hlength := congrArg List.length (itemsFrom_moves [47] (rest.splitOn 47))
    rw [List.length_map, List.length_map] at hlength
    obtain ⟨p, hp, hsplit⟩ := exists_part rest n (by omega)
    refine ⟨47 :: p, ⟨List.cons_ne_nil _ _, ?_⟩, ?_⟩
    · rcases hp with rfl | ⟨more, rfl⟩
      · exact .inl rfl
      · exact .inr ⟨more, rfl⟩
    · rw [movesOf, splitOn_slash, hsplit]
      rfl
  · rw [if_neg hhead] at hle
    rw [if_neg hhead, if_neg hhead, itemsFrom_moves, ← List.map_take, List.nil_append]
    have hlength := congrArg List.length (itemsFrom_moves [] (path.splitOn 47))
    rw [List.length_map, List.length_map] at hlength
    obtain ⟨p, hp, hsplit⟩ := exists_part path n (by omega)
    refine ⟨p, ⟨?_, hp⟩, by rw [movesOf, hsplit]⟩
    rintro rfl
    rcases hp with rfl | ⟨more, rfl⟩
    · exact hpath rfl
    · exact hhead rfl

private theorem covered_of_stay {dirs : List (List Bytes)} {here : List Bytes}
    {items : List (Move Bytes × Bool)} (hhere : here ∈ dirs)
    (hstay : ∀ item ∈ items, item.2 = true → item.1 = .stay) :
    DirTree.Covered dirs here items := by
  induction items generalizing dirs here with
  | nil => trivial
  | cons item items ih =>
    obtain ⟨m, skipped⟩ := item
    obtain ⟨hfirst, hothers⟩ := List.forall_mem_cons.mp hstay
    refine ⟨fun hskipped => ?_, ih List.mem_cons_self hothers⟩
    obtain rfl : m = .stay := hfirst hskipped
    exact hhere

private theorem SkipsKnown.covered {path : Bytes} (hknown : SkipsKnown path) {cwd : List Bytes}
    {t : FileTree Bytes} (hclosed : DirTree.Closed t) (hcwd : t cwd = some .dir) :
    ∃ here, DirTree.walk t (startOf cwd path) (frontOf path) = .ok here ∧ t here = some .dir ∧
      DirTree.Covered [here] here (itemsOf path) := by
  unfold SkipsKnown at hknown
  unfold startOf frontOf
  by_cases hhead : path.head? = some 47
  · rw [if_pos hhead] at hknown
    rw [if_pos hhead, if_pos hhead]
    have hroot : t (DirTree.enter [] .stay) ≠ none := by
      rw [DirTree.enter, hclosed.root]
      exact Option.some_ne_none _
    have hwalk : DirTree.walk t [] ([] ++ [.stay]) = .ok [] :=
      DirTree.walk_concat_of_dir rfl hclosed.root hroot
    exact ⟨[], hwalk, hclosed.root, hknown⟩
  · rw [if_neg hhead] at hknown
    rw [if_neg hhead, if_neg hhead]
    exact ⟨cwd, rfl, hcwd, covered_of_stay List.mem_cons_self hknown⟩

private theorem makesPath_of_known {path : Bytes} (hpath : path ≠ []) (hstring : 0 ∉ path)
    (hshort : path.length < frPathBufMax) (hknown : SkipsKnown path) : MakesPath path := by
  intro strerror denied cwd t hclosed hcwd result
  obtain ⟨hok, htree⟩ := @frDirCreateAll_agrees strerror denied cwd t path hpath hstring hshort
  obtain ⟨here, hwalk, hdir, hcovered⟩ := hknown.covered hclosed hcwd
  have hhere : ∀ dir ∈ [here], t dir = some .dir := by simpa using hdir
  have hplace : ∀ p, PathPrefix p path → DirTree.place (startOf cwd p) (movesOf p) =
      DirTree.placeAfter (startOf cwd path) (frontOf path) (itemsOf p) := by
    intro p hp
    rw [hp.items.2.2.2, hp.movesOf, DirTree.placeAfter]
  refine ⟨fun hsuccess p hp => ?_, fun other hother => ?_, fun hfile hallowed => ?_⟩
  · obtain ⟨hleads, hthere⟩ := DirTree.ensureAll_leads hcovered hclosed hhere hwalk hdir
      (hok.mp hsuccess) hp.items.2.1
    rw [← htree] at hleads hthere
    rw [DirTree.stat, hp.items.2.2.2, hp.movesOf, hleads]
    dsimp only
    rw [hthere]
  · have hkeeps := (@DirTree.ensureAll_keeps _ _ denied t (startOf cwd path) (frontOf path)
      (itemsOf path) hclosed).2.2 other
    rw [← htree] at hkeeps
    obtain ⟨hnone, hmade, done, hne, hdone, hother'⟩ := hkeeps hother
    obtain ⟨p, hp, hmoves⟩ := exists_pathPrefix hpath hne hdone
    refine ⟨hnone, hmade, p, hp, ?_⟩
    rw [hother', DirTree.placeAfter, hp.items.2.2.2, hmoves]
  · refine hok.mpr (DirTree.ensureAll_succeeds hcovered hclosed hhere hwalk hdir
      (fun done hne hdone => ?_) hallowed)
    obtain ⟨p, hp, hmoves⟩ := exists_pathPrefix hpath hne hdone
    have hnofile := hfile p hp
    rwa [hp.items.2.2.2, hmoves] at hnofile

/-- A name that looks like a drive. -/
def IsDrive (name : Bytes) : Prop := name.length = 2 ∧ name[1]? = some 58

private theorem skipsSegment_iff {segment : Bytes} :
    skipsSegment segment = true ↔ segment = [] ∨ IsDrive segment := by
  simp [skipsSegment, IsDrive]

private theorem moveOf_drive {name : Bytes} (h : IsDrive name) : moveOf name = .down name := by
  have hne : ∀ other : Bytes, ¬ IsDrive other → name ≠ other := by
    rintro other hother rfl
    exact hother h
  have hempty := hne [] (by simp [IsDrive])
  have hdot := hne (ascii ".") (by simp [IsDrive, ascii])
  have hdotdot := hne (ascii "..") (by simp [IsDrive, ascii])
  rw [moveOf, if_neg (not_or.mpr ⟨hempty, hdot⟩), if_neg hdotdot]

private theorem enter_no_drive {here : List Bytes} {component : Bytes}
    (hhere : ∀ name ∈ here, ¬ IsDrive name) (hcomponent : ¬ IsDrive component) :
    ∀ name ∈ DirTree.enter here (moveOf component), ¬ IsDrive name := by
  unfold moveOf
  split
  · exact hhere
  · split
    · exact fun name hmem => hhere name (List.mem_of_mem_dropLast hmem)
    · exact List.forall_mem_append.mpr ⟨hhere, by simpa using hcomponent⟩

private theorem stay_of_covered {dirs : List (List Bytes)} {here : List Bytes}
    {components : List Bytes}
    (hdirs : ∀ dir ∈ dirs, ∀ name ∈ dir, ¬ IsDrive name) (hhere : ∀ name ∈ here, ¬ IsDrive name)
    (hcovered : DirTree.Covered dirs here (components.map itemOf)) :
    ∀ item ∈ components.map itemOf, item.2 = true → item.1 = .stay := by
  induction components generalizing dirs here with
  | nil => simp
  | cons component components ih =>
    obtain ⟨hskipped, hrest⟩ := hcovered
    have hcomponent : ¬ IsDrive component := by
      intro hdrive
      have hmem := hskipped (skipsSegment_iff.mpr (.inr hdrive))
      rw [moveOf_drive hdrive, DirTree.enter_down] at hmem
      exact hdirs _ hmem component (List.mem_append_right _ List.mem_cons_self) hdrive
    have hentered := enter_no_drive hhere hcomponent
    rw [List.map_cons]
    refine List.forall_mem_cons.mpr ⟨fun hskip => ?_,
      ih (List.forall_mem_cons.mpr ⟨hentered, hdirs⟩) hentered hrest⟩
    rcases skipsSegment_iff.mp hskip with rfl | hdrive
    · rfl
    · exact absurd hdrive hcomponent

/-- Nothing but the root. -/
def emptyTree : FileTree Bytes := fun here => if here = [] then some .dir else none

private theorem emptyTree_closed : DirTree.Closed emptyTree := by
  refine ⟨rfl, fun here name hsome => absurd (if_neg ?_) hsome⟩
  simp

private theorem known_of_makesPath {path : Bytes} (hpath : path ≠ []) (hstring : 0 ∉ path)
    (hshort : path.length < frPathBufMax) (hmakes : MakesPath path) : SkipsKnown path := by
  obtain ⟨hprefixes, -, hsucceeds⟩ :=
    hmakes (fun _ => []) (fun _ => none) [] emptyTree emptyTree_closed rfl
  obtain ⟨hok, htree⟩ := @frDirCreateAll_agrees (fun _ => []) (fun _ => none) [] emptyTree path
    hpath hstring hshort
  have hnofile : ∀ p, PathPrefix p path →
      emptyTree (DirTree.place (startOf [] p) (movesOf p)) ≠ some .file := by
    intro p _
    unfold emptyTree
    split <;> exact nofun
  have hsuccess := hsucceeds hnofile fun _ => rfl
  have hdirs := hprefixes hsuccess
  have hstart : startOf [] path = [] := by
    unfold startOf
    split <;> rfl
  have hwalk : DirTree.walk emptyTree (startOf [] path) (frontOf path) = .ok [] := by
    rw [hstart, frontOf]
    split <;> rfl
  have honly : ∀ other, emptyTree other ≠ none → other ∈ [([] : List Bytes)] := by
    intro other hother
    by_contra hmem
    exact hother (if_neg (by simpa using hmem))
  have hleads : ∀ done, done ≠ [] → done <+: itemsOf path →
      (DirTree.ensureAll (fun _ => none) (startOf [] path) emptyTree (frontOf path)
        (itemsOf path)).2 (DirTree.placeAfter (startOf [] path) (frontOf path) done) =
        some .dir := by
    intro done hne hdone
    obtain ⟨p, hp, hmoves⟩ := exists_pathPrefix hpath hne hdone
    have hstat := hdirs p hp
    rw [htree, hp.items.2.2.2, hmoves, DirTree.stat] at hstat
    split at hstat
    · cases hstat
    · rename_i here hwalk'
      rw [DirTree.walk_place hwalk'] at hstat
      split at hstat
      · rename_i node hnode
        cases hstat
        exact hnode
      · cases hstat
  have hcovered := DirTree.covered_of_leads emptyTree_closed honly hwalk rfl (hok.mp hsuccess)
    hleads
  unfold SkipsKnown
  split
  · exact hcovered
  · rename_i hhead
    have hitems : itemsOf path = (path.splitOn 47).map itemOf := by
      rw [itemsOf, if_neg hhead, itemsFrom_nil_lead]
    rw [hitems] at hcovered ⊢
    exact stay_of_covered (by simp) (by simp) hcovered

/-- A call makes the directories of a path, in every tree, if and only if it skips nothing but what
is known: no segment like a drive on a relative path, and on an absolute path only one that leads
to where a prefix before it leads. -/
theorem frDirCreateAll_makesPath_iff (path : Bytes) (hpath : path ≠ []) (hstring : 0 ∉ path)
    (hshort : path.length < frPathBufMax) : MakesPath path ↔ SkipsKnown path :=
  ⟨known_of_makesPath hpath hstring hshort, makesPath_of_known hpath hstring hshort⟩

/-- The directory of a chunk. -/
theorem frDirCreateAll_makesPath_chunks : MakesPath (ascii "/srv//chunks/ab") :=
  (frDirCreateAll_makesPath_iff _ (by decide) (by decide) (by decide)).mpr (by decide)

/-- A directory whose name looks like a drive is not made, and the call succeeds. -/
theorem drive_not_made : ¬ MakesPath (ascii "a/c:") := by
  intro hmakes
  obtain ⟨hprefixes, -, -⟩ := hmakes (fun _ => []) (fun _ => none) [] emptyTree emptyTree_closed rfl
  have hdir := hprefixes (by decide) (ascii "a/c:") ⟨by decide, .inl rfl⟩
  exact absurd hdir (by decide)

end ForgeRelay
