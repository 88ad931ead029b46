import Mathlib.Data.List.Basic

/-!
# Texts with quoted parts

A delimiter opens or closes a quoted part. Within one, the character behind an escape character is
never a delimiter. A text that is put together from parts without delimiters of their own is cut at
its delimiters into exactly these parts.
-/

namespace Quoting

/-- Where a reader of the text is. -/
inductive Mode
  | outside | inside | escaped
  deriving DecidableEq, Repr

variable {α : Type} {quote escape : α}

/-- A text with quoted parts: what stands before each of them, and what it is. -/
def quoted (quote : α) (parts : List (List α × List α)) (rest : List α) : List α :=
  parts.flatMap (fun part => part.1 ++ quote :: part.2 ++ [quote]) ++ rest

theorem quoted_append (parts parts' : List (List α × List α)) (rest : List α) :
    quoted quote (parts ++ parts') rest = quoted quote parts (quoted quote parts' rest) := by
  simp only [quoted, List.flatMap_append, List.append_assoc]

variable [DecidableEq α]

/-- Where a delimiter takes the reader. -/
def Mode.flip : Mode → Mode
  | outside => inside
  | inside | escaped => outside

/-- Where another character takes the reader. -/
def Mode.next (escape : α) : Mode → α → Mode
  | outside, _ => outside
  | inside, c => if c = escape then escaped else inside
  | escaped, _ => inside

/-- The parts of a text between its delimiters. -/
def pieces (quote escape : α) : Mode → List α → List (List α)
  | _, [] => [[]]
  | mode, c :: cs =>
    if c = quote ∧ mode ≠ .escaped then [] :: pieces quote escape mode.flip cs
    else (pieces quote escape (mode.next escape c) cs).modifyHead (c :: ·)

/-- Where a text without a delimiter leads to. -/
def ends (quote escape : α) : Mode → List α → Option Mode
  | mode, [] => some mode
  | mode, c :: cs =>
    if c = quote ∧ mode ≠ .escaped then none else ends quote escape (mode.next escape c) cs

/-- A text has no delimiter of its own and leaves the reader where he was. -/
def Whole (quote escape : α) (mode : Mode) (text : List α) : Prop :=
  ends quote escape mode text = some mode

private theorem ends_append {mode mode' : Mode} {text text' : List α}
    (h : ends quote escape mode text = some mode') :
    ends quote escape mode (text ++ text') = ends quote escape mode' text' := by
  induction text generalizing mode with
  | nil =>
    cases h
    rfl
  | cons c text ih =>
    rw [ends] at h
    rw [List.cons_append, ends]
    split at h
    · cases h
    · rename_i hc
      rw [if_neg hc]
      exact ih h

theorem Whole.append {mode : Mode} {text text' : List α} (h : Whole quote escape mode text)
    (h' : Whole quote escape mode text') : Whole quote escape mode (text ++ text') := by
  rw [Whole, ends_append h]
  exact h'

private theorem whole_of_forall {mode : Mode} {text : List α}
    (h : ∀ c ∈ text, c ≠ quote ∧ mode.next escape c = mode) : Whole quote escape mode text := by
  induction text with
  | nil => rfl
  | cons c text ih =>
    obtain ⟨⟨hc, hnext⟩, htext⟩ := List.forall_mem_cons.mp h
    rw [Whole, ends, if_neg fun hquote => hc hquote.1, hnext]
    exact ih htext

theorem whole_outside {text : List α} (h : quote ∉ text) : Whole quote escape .outside text :=
  whole_of_forall fun _ hmem => ⟨ne_of_mem_of_not_mem hmem h, rfl⟩

theorem whole_inside {text : List α} (hquote : quote ∉ text) (hescape : escape ∉ text) :
    Whole quote escape .inside text :=
  whole_of_forall fun _ hmem =>
    ⟨ne_of_mem_of_not_mem hmem hquote, if_neg (ne_of_mem_of_not_mem hmem hescape)⟩

theorem whole_escape (c : α) (h : escape ≠ quote) : Whole quote escape .inside [escape, c] := by
  rw [Whole, ends, if_neg fun hquote => h hquote.1, Mode.next, if_pos rfl, ends,
    if_neg fun hquote => hquote.2 rfl]
  rfl

theorem whole_flatMap {β : Type} {mode : Mode} {f : β → List α}
    (h : ∀ b, Whole quote escape mode (f b)) (bs : List β) :
    Whole quote escape mode (bs.flatMap f) := by
  induction bs with
  | nil => rfl
  | cons b bs ih => exact (h b).append ih

private theorem pieces_append {mode mode' : Mode} {text rest : List α}
    (h : ends quote escape mode text = some mode') :
    pieces quote escape mode (text ++ rest) =
      (pieces quote escape mode' rest).modifyHead (text ++ ·) := by
  induction text generalizing mode with
  | nil =>
    cases h
    rw [List.nil_append]
    exact (congrFun List.modifyHead_id _).symm
  | cons c text ih =>
    rw [ends] at h
    rw [List.cons_append, pieces]
    split at h
    · cases h
    · rename_i hc
      rw [if_neg hc, ih h, List.modifyHead_modifyHead]
      rfl

theorem Whole.pieces {mode : Mode} {text : List α} (h : Whole quote escape mode text) :
    pieces quote escape mode text = [text] := by
  have hpieces : Quoting.pieces quote escape mode (text ++ []) = _ := pieces_append h
  rw [List.append_nil] at hpieces
  rw [hpieces, Quoting.pieces, List.modifyHead_cons, List.append_nil]

private theorem Whole.pieces_quote {mode : Mode} {text rest : List α}
    (h : Whole quote escape mode text) (hmode : mode ≠ .escaped) :
    Quoting.pieces quote escape mode (text ++ quote :: rest) =
      text :: Quoting.pieces quote escape mode.flip rest := by
  rw [pieces_append h, Quoting.pieces, if_pos ⟨rfl, hmode⟩, List.modifyHead_cons, List.append_nil]

theorem pieces_quoted {parts : List (List α × List α)} {rest : List α}
    (hparts : ∀ part ∈ parts,
      Whole quote escape .outside part.1 ∧ Whole quote escape .inside part.2)
    (hrest : Whole quote escape .outside rest) :
    pieces quote escape .outside (quoted quote parts rest) =
      parts.flatMap (fun part => [part.1, part.2]) ++ [rest] := by
  induction parts with
  | nil => exact hrest.pieces
  | cons part parts ih =>
    obtain ⟨hpart, hparts⟩ := List.forall_mem_cons.mp hparts
    have hquoted : quoted quote (part :: parts) rest =
        part.1 ++ quote :: (part.2 ++ quote :: quoted quote parts rest) := by
      simp [quoted]
    rw [hquoted, hpart.1.pieces_quote (by decide), Mode.flip, hpart.2.pieces_quote (by decide),
      Mode.flip, ih hparts]
    rfl

end Quoting
