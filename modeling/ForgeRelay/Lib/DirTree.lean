import Mathlib.Logic.Function.Basic
import Mathlib.Data.List.Basic

/-!
# Directory trees

A tree maps a place, which is the names on the way to it from the root, to nothing, a directory or
a file; there are no links. A path is a list of moves, and a walk follows it through the tree.
Making all directories of a path, with some of them skipped, is correct in every tree if every
skipped one is known to be there, and makes no others.
-/

namespace DirTree

variable {α : Type*}

inductive Node
  | dir
  | file
  deriving DecidableEq, Repr

abbrev FileTree (α : Type*) := List α → Option Node

/-- What a component of a path stands for. -/
inductive Move (α : Type*)
  | stay
  | up
  | down (name : α)
  deriving DecidableEq, Repr

/-- Where a move leads from a place; above the root is the root. -/
def enter (here : List α) : Move α → List α
  | .stay => here
  | .up => here.dropLast
  | .down name => here ++ [name]

theorem enter_down (here : List α) (name : α) : enter here (.down name) = here ++ [name] := rfl

/-- Where moves lead, by their names alone. -/
def place (start : List α) (moves : List (Move α)) : List α := moves.foldl enter start

/-- The root is a directory, and what there is is in a directory. -/
structure Closed (t : FileTree α) : Prop where
  root : t [] = some .dir
  above : ∀ here name, t (here ++ [name]) ≠ none → t here = some .dir

/-- Whatever there is in one tree is the same in the other. -/
def Extends (t t' : FileTree α) : Prop := ∀ here node, t here = some node → t' here = some node

/-- Why a system call on a path fails. -/
inductive Failure
  | missing
  | notDir
  | occupied
  | denied (errno : Nat)
  deriving DecidableEq, Repr

/-- One move through the tree. -/
def step (t : FileTree α) (here : List α) (m : Move α) : Except Failure (List α) :=
  if t here = some .dir then
    if t (enter here m) = none then .error .missing else .ok (enter here m)
  else .error .notDir

/-- The resolution of a path. -/
def walk (t : FileTree α) : List α → List (Move α) → Except Failure (List α)
  | here, [] => .ok here
  | here, m :: moves =>
    match step t here m with
    | .ok next => walk t next moves
    | .error e => .error e

def stat (t : FileTree α) (start : List α) (moves : List (Move α)) : Except Failure Node :=
  match walk t start moves with
  | .error e => .error e
  | .ok here =>
    match t here with
    | some node => .ok node
    | none => .error .missing

variable [DecidableEq α]

/-- `mkdir`, where the making of a directory may be denied. Of the paths that end in `stay` only the
root's own is meant: behind other names a last slash would have to be left out. -/
def mkdir (denied : List α → Option Nat) (t : FileTree α) (start : List α) (moves : List (Move α)) :
    Except Failure (FileTree α) :=
  match walk t start moves.dropLast with
  | .error e => .error e
  | .ok parent =>
    if t parent = some .dir then
      match moves.getLast? with
      | some (.down name) =>
        if t (parent ++ [name]) = none then
          match denied (parent ++ [name]) with
          | none => .ok (Function.update t (parent ++ [name]) (some .dir))
          | some errno => .error (.denied errno)
        else .error .occupied
      | _ => .error .occupied
    else .error .notDir

/-- A `mkdir` that is content with a directory that is there: the tree, unless it fails. -/
def ensure (denied : List α → Option Nat) (t : FileTree α) (start : List α)
    (moves : List (Move α)) : Option (FileTree α) :=
  match mkdir denied t start moves with
  | .ok t' => some t'
  | .error .occupied => if stat t start moves = .ok .dir then some t else none
  | .error _ => none

/-- All directories behind these moves, in their order, but for the skipped ones: whether that
succeeds, and the tree. -/
def ensureAll (denied : List α → Option Nat) (start : List α) :
    FileTree α → List (Move α) → List (Move α × Bool) → Bool × FileTree α
  | t, _, [] => (true, t)
  | t, front, (m, true) :: items => ensureAll denied start t (front ++ [m]) items
  | t, front, (m, false) :: items =>
    match ensure denied t start (front ++ [m]) with
    | some t' => ensureAll denied start t' (front ++ [m]) items
    | none => (false, t)

/-- Every skipped move leads to one of these directories, or to where a move before it leads. -/
def Covered (dirs : List (List α)) (here : List α) : List (Move α × Bool) → Prop
  | [] => True
  | (m, skipped) :: items =>
    (skipped = true → enter here m ∈ dirs) ∧ Covered (enter here m :: dirs) (enter here m) items

instance decidableCovered (dirs : List (List α)) (here : List α) (items : List (Move α × Bool)) :
    Decidable (Covered dirs here items) :=
  match items with
  | [] => isTrue trivial
  | (m, skipped) :: items =>
    have := decidableCovered (enter here m :: dirs) (enter here m) items
    inferInstanceAs (Decidable ((skipped = true → enter here m ∈ dirs) ∧ _))

section Walks

variable {α : Type*} {t t' : FileTree α} {start here next : List α} {m : Move α}
  {moves front more : List (Move α)}

@[simp] theorem place_concat (start : List α) (front : List (Move α)) (m : Move α) :
    place start (front ++ [m]) = enter (place start front) m := by
  rw [place, List.foldl_append]
  rfl

theorem Extends.refl (t : FileTree α) : Extends t t := fun _ _ h => h

theorem Extends.trans {t'' : FileTree α} (h : Extends t t') (h' : Extends t' t'') : Extends t t'' :=
  fun here node hnode => h' here node (h here node hnode)

private theorem step_ok_iff :
    step t here m = .ok next ↔ t here = some .dir ∧ t next ≠ none ∧ next = enter here m := by
  unfold step
  split
  · rename_i hdir
    split
    · rename_i hnone
      constructor
      · intro h
        cases h
      · rintro ⟨-, hsome, rfl⟩
        exact absurd hnone hsome
    · rename_i hsome
      constructor
      · intro h
        cases h
        exact ⟨hdir, hsome, rfl⟩
      · rintro ⟨-, -, rfl⟩
        rfl
  · rename_i hdir
    constructor
    · intro h
      cases h
    · rintro ⟨h, -⟩
      exact absurd h hdir

private theorem walk_append (t : FileTree α) (start : List α) (front more : List (Move α)) :
    walk t start (front ++ more) =
      match walk t start front with
      | .ok here => walk t here more
      | .error e => .error e := by
  induction front generalizing start with
  | nil => rfl
  | cons m front ih =>
    rw [List.cons_append, walk, walk]
    cases step t start m with
    | error e => rfl
    | ok next => exact ih next

private theorem walk_concat_ok_iff :
    walk t start (front ++ [m]) = .ok next ↔
      ∃ here, walk t start front = .ok here ∧ step t here m = .ok next := by
  rw [walk_append]
  cases walk t start front with
  | error e => simp
  | ok here =>
    simp only [walk, Except.ok.injEq, exists_eq_left']
    cases step t here m <;> simp

theorem walk_place (h : walk t start moves = .ok here) : here = place start moves := by
  induction moves generalizing start with
  | nil =>
    cases h
    rfl
  | cons m moves ih =>
    rw [walk] at h
    split at h
    · rename_i next hstep
      rw [ih h, (step_ok_iff.mp hstep).2.2]
      rfl
    · cases h

theorem Extends.walk (hext : Extends t t') (h : walk t start moves = .ok here) :
    DirTree.walk t' start moves = .ok here := by
  induction moves generalizing start with
  | nil => exact h
  | cons m moves ih =>
    rw [DirTree.walk] at h ⊢
    split at h
    · rename_i next hstep
      obtain ⟨hdir, hsome, hnext⟩ := step_ok_iff.mp hstep
      obtain ⟨node, hnode⟩ := Option.ne_none_iff_exists'.mp hsome
      have hstep' : step t' start m = .ok next :=
        step_ok_iff.mpr ⟨hext _ _ hdir, by rw [hext _ _ hnode]; exact Option.some_ne_none _, hnext⟩
      rw [hstep']
      exact ih h
    · cases h

theorem Closed.up (hclosed : Closed t) (hdir : t here = some .dir) :
    t here.dropLast = some .dir := by
  rcases List.eq_nil_or_concat' here with rfl | ⟨above, name, rfl⟩
  · exact hdir
  · rw [List.dropLast_concat]
    exact hclosed.above above name (by rw [hdir]; exact Option.some_ne_none _)

theorem walk_concat_of_dir (hwalk : walk t start front = .ok here) (hdir : t here = some .dir)
    (hthere : t (enter here m) ≠ none) : walk t start (front ++ [m]) = .ok (enter here m) :=
  walk_concat_ok_iff.mpr ⟨here, hwalk, step_ok_iff.mpr ⟨hdir, hthere, rfl⟩⟩

/-- Where the moves up to some item lead. -/
def placeAfter (start : List α) (front : List (Move α)) (done : List (Move α × Bool)) : List α :=
  place start (front ++ done.map Prod.fst)

private theorem placeAfter_cons (start : List α) (front : List (Move α)) (m : Move α)
    (skipped : Bool) (done : List (Move α × Bool)) :
    placeAfter start front ((m, skipped) :: done) = placeAfter start (front ++ [m]) done := by
  rw [placeAfter, placeAfter, List.map_cons, List.append_assoc, List.singleton_append]

end Walks

section Making

variable {denied : List α → Option Nat} {t t' : FileTree α} {start here : List α} {m : Move α}
  {front : List (Move α)}

theorem Closed.update {name : α} (hclosed : Closed t) (hdir : t here = some .dir) :
    Closed (Function.update t (here ++ [name]) (some .dir)) := by
  constructor
  · rw [Function.update_of_ne (by simp)]
    exact hclosed.root
  · intro place other hsome
    by_cases hmade : place ++ [other] = here ++ [name]
    · have hplace : place = here := (List.append_inj' hmade rfl).1
      rw [hplace]
      by_cases hsame : here = here ++ [name]
      · exact absurd (congrArg List.length hsame) (by simp)
      · rw [Function.update_of_ne hsame]
        exact hdir
    · rw [Function.update_of_ne hmade] at hsome
      have hplace := hclosed.above place other hsome
      by_cases hsame : place = here ++ [name]
      · rw [hsame, Function.update_self]
      · rwa [Function.update_of_ne hsame]

private theorem extends_update {place : List α} {node : Node} (hnone : t place = none) :
    Extends t (Function.update t place (some node)) := by
  intro other node' hother
  have hne : other ≠ place := by
    rintro rfl
    rw [hnone] at hother
    cases hother
  rwa [Function.update_of_ne hne]

theorem stat_of_denied {moves : List (Move α)} {errno : Nat}
    (h : mkdir denied t start moves = .error (.denied errno)) (node : Node) :
    stat t start moves ≠ .ok node := by
  intro hstat
  rcases List.eq_nil_or_concat' moves with rfl | ⟨front, m, rfl⟩
  · unfold mkdir at h
    rw [List.dropLast_nil, walk] at h
    dsimp only at h
    split at h <;> cases h
  unfold mkdir at h
  rw [List.dropLast_concat, List.getLast?_concat] at h
  unfold stat at hstat
  rw [walk_append] at hstat
  cases hwalk : walk t start front with
  | error e =>
    rw [hwalk] at hstat
    cases hstat
  | ok here =>
    rw [hwalk] at h hstat
    dsimp only at h hstat
    by_cases hdir : t here = some .dir
    swap
    · rw [if_neg hdir] at h
      cases h
    rw [if_pos hdir] at h
    cases m with
    | stay => cases h
    | up => cases h
    | down name =>
      dsimp only at h
      by_cases hnone : t (here ++ [name]) = none
      · rw [walk, step, if_pos hdir, enter_down, if_pos hnone] at hstat
        cases hstat
      · rw [if_neg hnone] at h
        cases h

/-- Below a directory that the moves before lead to: the directory is there, or is made unless that
is denied. -/
private theorem ensure_of_dir (hclosed : Closed t) (hwalk : walk t start front = .ok here)
    (hdir : t here = some .dir) :
    ensure denied t start (front ++ [m]) =
      match t (enter here m) with
      | some .dir => some t
      | some .file => none
      | none =>
        match denied (enter here m) with
        | none => some (Function.update t (enter here m) (some .dir))
        | some _ => none := by
  have hstat : ∀ node, t (enter here m) = some node →
      stat t start (front ++ [m]) = .ok node := by
    intro node hnode
    have hmove : walk t start (front ++ [m]) = .ok (enter here m) :=
      walk_concat_ok_iff.mpr ⟨here, hwalk,
        step_ok_iff.mpr ⟨hdir, by rw [hnode]; exact Option.some_ne_none _, rfl⟩⟩
    rw [stat, hmove]
    dsimp only
    rw [hnode]
  have hthere : (∀ name, m ≠ .down name) → t (enter here m) = some .dir := by
    intro hm
    cases m with
    | stay => exact hdir
    | up => exact hclosed.up hdir
    | down name => exact absurd rfl (hm name)
  unfold ensure mkdir
  rw [List.dropLast_concat, hwalk, List.getLast?_concat]
  dsimp only
  rw [if_pos hdir]
  cases m with
  | stay =>
    have hdir' := hthere (by simp)
    rw [hdir']
    dsimp only
    rw [hstat .dir hdir', if_pos rfl]
  | up =>
    have hdir' := hthere (by simp)
    rw [hdir']
    dsimp only
    rw [hstat .dir hdir', if_pos rfl]
  | down name =>
    simp only [enter_down] at hstat ⊢
    cases hnode : t (here ++ [name]) with
    | none =>
      rw [if_pos rfl]
      cases denied (here ++ [name]) <;> rfl
    | some node =>
      rw [if_neg (Option.some_ne_none _)]
      dsimp only
      rw [hstat node hnode]
      cases node <;> rfl

private theorem ensure_of_not (hnot : ∀ here, walk t start front = .ok here → t here ≠ some .dir) :
    ensure denied t start (front ++ [m]) = none := by
  unfold ensure mkdir
  rw [List.dropLast_concat]
  cases hwalk : walk t start front with
  | error e =>
    have hstat : stat t start (front ++ [m]) ≠ .ok .dir := by
      rw [stat, walk_append, hwalk]
      exact nofun
    cases e with
    | occupied => exact if_neg hstat
    | missing => rfl
    | notDir => rfl
    | denied errno => rfl
  | ok here =>
    dsimp only
    rw [if_neg (hnot here hwalk)]

/-- What holds behind a directory that has been ensured. -/
structure Ensured (t : FileTree α) (start : List α) (moves : List (Move α)) (t' : FileTree α) :
    Prop where
  keeps : Extends t t'
  closed : Closed t'
  leads : walk t' start moves = .ok (place start moves)
  dir : t' (place start moves) = some .dir
  changes : ∀ other, t' other ≠ t other → other = place start moves ∧ t other = none

private theorem ensure_spec (hclosed : Closed t)
    (h : ensure denied t start (front ++ [m]) = some t') :
    Ensured t start (front ++ [m]) t' := by
  by_cases hdir : ∃ here, walk t start front = .ok here ∧ t here = some .dir
  swap
  · rw [ensure_of_not fun here hwalk hhere => hdir ⟨here, hwalk, hhere⟩] at h
    cases h
  obtain ⟨here, hwalk, hhere⟩ := hdir
  rw [ensure_of_dir hclosed hwalk hhere] at h
  have hplace : place start (front ++ [m]) = enter here m := by
    rw [place_concat, ← walk_place hwalk]
  cases hnode : t (enter here m) with
  | some node =>
    rw [hnode] at h
    cases node with
    | file => cases h
    | dir =>
      cases h
      refine ⟨.refl t, hclosed, ?_, by rw [hplace, hnode], fun other hother => absurd rfl hother⟩
      rw [hplace]
      exact walk_concat_ok_iff.mpr ⟨here, hwalk,
        step_ok_iff.mpr ⟨hhere, by rw [hnode]; exact Option.some_ne_none _, rfl⟩⟩
  | none =>
    rw [hnode] at h
    dsimp only at h
    split at h
    · cases h
      have hext : Extends t (Function.update t (enter here m) (some Node.dir)) :=
        extends_update hnode
      have hmade : Function.update t (enter here m) (some Node.dir) (enter here m) = some .dir :=
        Function.update_self ..
      have hname : ∃ name, m = .down name := by
        cases m with
        | stay => exact absurd (hhere.symm.trans hnode) (by simp)
        | up => exact absurd ((hclosed.up hhere).symm.trans hnode) (by simp)
        | down name => exact ⟨name, rfl⟩
      obtain ⟨name, rfl⟩ := hname
      refine ⟨hext, hclosed.update hhere, ?_, by rw [hplace, hmade], fun other hother => ?_⟩
      · rw [hplace]
        exact walk_concat_ok_iff.mpr ⟨here, hext.walk hwalk,
          step_ok_iff.mpr ⟨hext _ _ hhere, by rw [hmade]; exact Option.some_ne_none _, rfl⟩⟩
      · rw [hplace]
        by_cases hsame : other = enter here (.down name)
        · exact ⟨hsame, hsame ▸ hnode⟩
        · exact absurd (Function.update_of_ne hsame _ _) hother
    · cases h

/-- A directory is ensured where nothing else is, unless that is denied. -/
private theorem ensure_some (hclosed : Closed t) (hwalk : walk t start front = .ok here)
    (hdir : t here = some .dir) (hfile : t (enter here m) ≠ some .file)
    (hallowed : denied (enter here m) = none) :
    ∃ t', ensure denied t start (front ++ [m]) = some t' := by
  rw [ensure_of_dir hclosed hwalk hdir]
  cases hnode : t (enter here m) with
  | none =>
    dsimp only
    rw [hallowed]
    exact ⟨_, rfl⟩
  | some node =>
    cases node with
    | dir => exact ⟨_, rfl⟩
    | file => exact absurd hnode hfile

variable {dirs : List (List α)} {items done : List (Move α × Bool)}

theorem ensureAll_cons (item : Move α × Bool) (items : List (Move α × Bool)) :
    ensureAll denied start t front (item :: items) =
      match ensureAll denied start t front [item] with
      | (true, t') => ensureAll denied start t' (front ++ [item.1]) items
      | (false, t') => (false, t') := by
  obtain ⟨m, skipped⟩ := item
  cases skipped with
  | true => rfl
  | false =>
    rw [ensureAll, ensureAll]
    cases ensure denied t start (front ++ [m]) <;> rfl

theorem ensureAll_keeps (hclosed : Closed t) :
    Extends t (ensureAll denied start t front items).2 ∧
    Closed (ensureAll denied start t front items).2 ∧
    ∀ other, (ensureAll denied start t front items).2 other ≠ t other →
      t other = none ∧ (ensureAll denied start t front items).2 other = some .dir ∧
      ∃ done, done ≠ [] ∧ done <+: items ∧ other = placeAfter start front done := by
  induction items generalizing t front with
  | nil => exact ⟨.refl t, hclosed, fun other hother => absurd rfl hother⟩
  | cons item items ih =>
    obtain ⟨m, skipped⟩ := item
    have hlater : ∀ other, (∃ done, done ≠ [] ∧ done <+: items ∧
        other = placeAfter start (front ++ [m]) done) →
        ∃ done, done ≠ [] ∧ done <+: (m, skipped) :: items ∧
          other = placeAfter start front done := by
      rintro other ⟨done, -, hprefix, rfl⟩
      exact ⟨(m, skipped) :: done, List.cons_ne_nil _ _, List.cons_prefix_cons.mpr ⟨rfl, hprefix⟩,
        (placeAfter_cons ..).symm⟩
    cases skipped with
    | true =>
      rw [ensureAll]
      obtain ⟨hext, hclosed', hnew⟩ := @ih t (front ++ [m]) hclosed
      refine ⟨hext, hclosed', fun other hother => ?_⟩
      obtain ⟨hnone, hdir, hdone⟩ := hnew other hother
      exact ⟨hnone, hdir, hlater other hdone⟩
    | false =>
      rw [ensureAll]
      cases hensure : ensure denied t start (front ++ [m]) with
      | none => exact ⟨.refl t, hclosed, fun other hother => absurd rfl hother⟩
      | some t₁ =>
        have hensured := ensure_spec hclosed hensure
        obtain ⟨hext, hclosed', hnew⟩ := @ih t₁ (front ++ [m]) hensured.closed
        dsimp only
        refine ⟨hensured.keeps.trans hext, hclosed', fun other hother => ?_⟩
        by_cases hfirst : t₁ other = t other
        · obtain ⟨hnone, hdir, hdone⟩ := hnew other (hfirst ▸ hother)
          exact ⟨hfirst ▸ hnone, hdir, hlater other hdone⟩
        · obtain ⟨rfl, hnone⟩ := hensured.changes other hfirst
          refine ⟨hnone, hext _ _ hensured.dir, [(m, false)], List.cons_ne_nil _ _, ?_, rfl⟩
          exact List.cons_prefix_cons.mpr ⟨rfl, List.nil_prefix⟩

/-- If every skipped place is known to be a directory, and all is made, then every prefix leads to a
directory. -/
theorem ensureAll_leads (hcovered : Covered dirs here items) (hclosed : Closed t)
    (hknown : ∀ dir ∈ dirs, t dir = some .dir) (hwalk : walk t start front = .ok here)
    (hdir : t here = some .dir) (hok : (ensureAll denied start t front items).1 = true)
    (hdone : done <+: items) :
    walk (ensureAll denied start t front items).2 start (front ++ done.map Prod.fst) =
        .ok (placeAfter start front done) ∧
      (ensureAll denied start t front items).2 (placeAfter start front done) = some .dir := by
  induction items generalizing dirs here t front done with
  | nil =>
    rw [List.prefix_nil.mp hdone, placeAfter, List.map_nil, List.append_nil, ← walk_place hwalk]
    exact ⟨hwalk, hdir⟩
  | cons item items ih =>
    obtain ⟨m, skipped⟩ := item
    obtain ⟨hskipped, hrest⟩ := hcovered
    rcases done with _ | ⟨item, done⟩
    · have hext := (@ensureAll_keeps _ _ denied t start front ((m, skipped) :: items) hclosed).1
      rw [placeAfter, List.map_nil, List.append_nil, ← walk_place hwalk]
      exact ⟨hext.walk hwalk, hext _ _ hdir⟩
    obtain ⟨rfl, hprefix⟩ := List.cons_prefix_cons.mp hdone
    have hmoves : front ++ ((m, skipped) :: done).map Prod.fst =
        (front ++ [m]) ++ done.map Prod.fst := by simp
    rw [placeAfter_cons, hmoves]
    cases skipped with
    | true =>
      rw [ensureAll] at hok ⊢
      have hthere := hknown _ (hskipped rfl)
      have hknown' : ∀ dir ∈ enter here m :: dirs, t dir = some .dir :=
        List.forall_mem_cons.mpr ⟨hthere, hknown⟩
      have hwalk' := walk_concat_of_dir hwalk hdir (by rw [hthere]; exact Option.some_ne_none _)
      exact ih hrest hclosed hknown' hwalk' hthere hok hprefix
    | false =>
      rw [ensureAll] at hok ⊢
      cases hensure : ensure denied t start (front ++ [m]) with
      | none =>
        rw [hensure] at hok
        cases hok
      | some t₁ =>
        rw [hensure] at hok
        have hensured := ensure_spec hclosed hensure
        have hplace : place start (front ++ [m]) = enter here m := by
          rw [place_concat, ← walk_place hwalk]
        have hthere := hensured.dir
        have hwalk' := hensured.leads
        rw [hplace] at hthere hwalk'
        have hknown' : ∀ dir ∈ enter here m :: dirs, t₁ dir = some .dir :=
          List.forall_mem_cons.mpr ⟨hthere, fun dir hmem => hensured.keeps _ _ (hknown dir hmem)⟩
        exact ih hrest hensured.closed hknown' hwalk' hthere hok hprefix

/-- If every skipped place is known to be a directory, nothing else stands in the way, and nothing
is denied, then all is made. -/
theorem ensureAll_succeeds (hcovered : Covered dirs here items) (hclosed : Closed t)
    (hknown : ∀ dir ∈ dirs, t dir = some .dir) (hwalk : walk t start front = .ok here)
    (hdir : t here = some .dir)
    (hfile : ∀ done, done ≠ [] → done <+: items → t (placeAfter start front done) ≠ some .file)
    (hallowed : ∀ other, denied other = none) :
    (ensureAll denied start t front items).1 = true := by
  induction items generalizing dirs here t front with
  | nil => rfl
  | cons item items ih =>
    obtain ⟨m, skipped⟩ := item
    obtain ⟨hskipped, hrest⟩ := hcovered
    have hplace : place start (front ++ [m]) = enter here m := by
      rw [place_concat, ← walk_place hwalk]
    have hlater : ∀ done, done <+: items →
        t (placeAfter start (front ++ [m]) done) ≠ some .file := by
      intro done hprefix
      rw [← placeAfter_cons start front m skipped]
      exact hfile _ (List.cons_ne_nil _ _) (List.cons_prefix_cons.mpr ⟨rfl, hprefix⟩)
    cases skipped with
    | true =>
      rw [ensureAll]
      have hthere := hknown _ (hskipped rfl)
      have hknown' : ∀ dir ∈ enter here m :: dirs, t dir = some .dir :=
        List.forall_mem_cons.mpr ⟨hthere, hknown⟩
      have hwalk' := walk_concat_of_dir hwalk hdir (by rw [hthere]; exact Option.some_ne_none _)
      exact ih hrest hclosed hknown' hwalk' hthere fun done _ hprefix => hlater done hprefix
    | false =>
      have hfirst : t (enter here m) ≠ some .file := by
        have hempty := hlater [] List.nil_prefix
        rwa [placeAfter, List.map_nil, List.append_nil, hplace] at hempty
      obtain ⟨t₁, hensure⟩ := ensure_some hclosed hwalk hdir hfirst (hallowed _)
      have hensured := ensure_spec hclosed hensure
      have hthere := hensured.dir
      have hwalk' := hensured.leads
      rw [hplace] at hthere hwalk'
      have hknown' : ∀ dir ∈ enter here m :: dirs, t₁ dir = some .dir :=
        List.forall_mem_cons.mpr ⟨hthere, fun dir hmem => hensured.keeps _ _ (hknown dir hmem)⟩
      rw [ensureAll, hensure]
      refine ih hrest hensured.closed hknown' hwalk' hthere fun done _ hprefix hnode => ?_
      by_cases hsame : t₁ (placeAfter start (front ++ [m]) done) =
          t (placeAfter start (front ++ [m]) done)
      · exact hlater done hprefix (hsame ▸ hnode)
      · obtain ⟨heq, -⟩ := hensured.changes _ hsame
        rw [heq, hensured.dir] at hnode
        cases hnode

private theorem ensureAll_stuck (hstuck : ∀ here, walk t start front ≠ .ok here)
    (hok : (ensureAll denied start t front items).1 = true) :
    (ensureAll denied start t front items).2 = t := by
  induction items generalizing front with
  | nil => rfl
  | cons item items ih =>
    obtain ⟨m, skipped⟩ := item
    cases skipped with
    | true =>
      rw [ensureAll] at hok ⊢
      refine ih (fun here hwalk => ?_) hok
      obtain ⟨before, hbefore, -⟩ := walk_concat_ok_iff.mp hwalk
      exact hstuck before hbefore
    | false =>
      rw [ensureAll, ensure_of_not fun here hwalk => absurd hwalk (hstuck here)] at hok
      cases hok

/-- In a tree with no other directories than the known ones, all can be made and every prefix leads
to a directory only if every skipped place is known. -/
theorem covered_of_leads (hclosed : Closed t) (honly : ∀ other, t other ≠ none → other ∈ dirs)
    (hwalk : walk t start front = .ok here) (hdir : t here = some .dir)
    (hok : (ensureAll denied start t front items).1 = true)
    (hleads : ∀ done, done ≠ [] → done <+: items →
      (ensureAll denied start t front items).2 (placeAfter start front done) = some .dir) :
    Covered dirs here items := by
  induction items generalizing dirs here t front with
  | nil => trivial
  | cons item items ih =>
    obtain ⟨m, skipped⟩ := item
    have hplace : place start (front ++ [m]) = enter here m := by
      rw [place_concat, ← walk_place hwalk]
    have hfirst := hleads [(m, skipped)] (List.cons_ne_nil _ _)
      (List.cons_prefix_cons.mpr ⟨rfl, List.nil_prefix⟩)
    have hlater : ∀ done, done ≠ [] → done <+: items →
        (ensureAll denied start t front ((m, skipped) :: items)).2
          (placeAfter start (front ++ [m]) done) = some .dir := by
      intro done _ hprefix
      rw [← placeAfter_cons start front m skipped]
      exact hleads _ (List.cons_ne_nil _ _) (List.cons_prefix_cons.mpr ⟨rfl, hprefix⟩)
    rw [placeAfter_cons, placeAfter, List.map_nil, List.append_nil, hplace] at hfirst
    cases skipped with
    | true =>
      rw [ensureAll] at hok hfirst hlater
      have hthere : t (enter here m) ≠ none := by
        intro hnone
        have hstuck : ∀ next, walk t start (front ++ [m]) ≠ .ok next := by
          intro next hnext
          obtain ⟨before, hbefore, hstep⟩ := walk_concat_ok_iff.mp hnext
          obtain rfl : before = here := Except.ok.inj (hbefore.symm.trans hwalk)
          obtain ⟨-, hsome, rfl⟩ := step_ok_iff.mp hstep
          exact hsome hnone
        rw [ensureAll_stuck hstuck hok, hnone] at hfirst
        cases hfirst
      obtain ⟨node, hnode⟩ := Option.ne_none_iff_exists'.mp hthere
      have hthere' : t (enter here m) = some .dir := by
        have hkept := (@ensureAll_keeps _ _ denied t start (front ++ [m]) items hclosed).1 _ _ hnode
        rw [hnode, ← hkept, hfirst]
      refine ⟨fun _ => honly _ hthere, ih hclosed (fun other hother => ?_)
        (walk_concat_of_dir hwalk hdir hthere) hthere' hok hlater⟩
      exact List.mem_cons_of_mem _ (honly other hother)
    | false =>
      rw [ensureAll] at hok hlater
      cases hensure : ensure denied t start (front ++ [m]) with
      | none =>
        rw [hensure] at hok
        cases hok
      | some t₁ =>
        rw [hensure] at hok hlater
        have hensured := ensure_spec hclosed hensure
        have hthere := hensured.dir
        have hwalk' := hensured.leads
        rw [hplace] at hthere hwalk'
        refine ⟨nofun, ih hensured.closed (fun other hother => ?_) hwalk' hthere hok hlater⟩
        by_cases hsame : t₁ other = t other
        · exact List.mem_cons_of_mem _ (honly other (hsame ▸ hother))
        · rw [(hensured.changes other hsame).1, hplace]
          exact List.mem_cons_self

end Making

end DirTree
