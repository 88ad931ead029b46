import ForgeRelay.Lib.CrashLogic
import ForgeRelay.Storage.Publish

/-!
# The rules of storage programs

The logic of interrupted runs for statements, file operations and the shared parts of the
operations. Between the steps the invariant holds; while chunks are being marked, the digests
that are still to be looked at may be leaked.
-/

namespace ForgeRelay

open Program Prog

variable {interrupts : Label → Store → Prop} {crash : Store → Prop} {s : Store} {α : Type}

/-- Every interruption at this state leaves it in the crash condition. -/
def Calm (interrupts : Label → Store → Prop) (crash : Store → Prop) (s : Store) : Prop :=
  ∀ l, interrupts l s → crash s

theorem Calm.of_crash (h : crash s) : Calm interrupts crash s := fun _ _ => h

theorem wp_stmt_ok {Q : Except Error α → Store → Prop} {f : Db → Except Error (α × Db)} {a : α}
    {db : Db} (hf : f s.db = .ok (a, db)) (hcalm : Calm interrupts crash s)
    (herr : ∀ l, interrupts l s → ∀ e, Q (.error e) s) (hok : Q (.ok a) { s with db := db }) :
    wp interrupts crash (stmt f) Q s := by
  rw [stmt, wp_lift]
  refine ⟨fun hl => ⟨hcalm _ hl, herr _ hl⟩, ?_⟩
  simp only [hf]
  exact hok

theorem wp_stmt {R : α → Store → Prop} {f : Db → Except Error (α × Db)} (hcrash : crash s)
    (hok : ∀ a db, f s.db = .ok (a, db) → R a { s with db := db }) :
    wp interrupts crash (stmt f) (Outcome crash R) s := by
  rw [stmt, wp_lift]
  refine ⟨fun _ => ⟨hcrash, fun _ => hcrash⟩, ?_⟩
  cases hf : f s.db with
  | ok r => exact hok r.1 r.2 hf
  | error e => exact hcrash

theorem wp_insert {R : Unit → Store → Prop} {f : Db → Except Error Db} (hcrash : crash s)
    (hok : ∀ db, f s.db = .ok db → R () { s with db := db }) :
    wp interrupts crash (stmt fun db => (f db).map ((), ·)) (Outcome crash R) s := by
  refine wp_stmt hcrash fun _ db hstep => ?_
  cases hf : f s.db with
  | error e => simp [hf, Except.map] at hstep
  | ok db' =>
    simp only [hf, Except.map, Except.ok.injEq, Prod.mk.injEq, true_and] at hstep
    exact hok db (hstep ▸ hf)

theorem wp_query {R : α → Store → Prop} {f : Db → Except Error α} (hcrash : crash s)
    (hok : ∀ a, f s.db = .ok a → R a s) :
    wp interrupts crash (stmt fun db => (f db).map (·, db)) (Outcome crash R) s := by
  refine wp_stmt hcrash fun a db hstep => ?_
  cases hf : f s.db with
  | error e => simp [hf, Except.map] at hstep
  | ok a' =>
    simp only [hf, Except.map, Except.ok.injEq, Prod.mk.injEq] at hstep
    obtain ⟨rfl, rfl⟩ := hstep
    exact hok a' hf

theorem wp_select {Q : Except Error α → Store → Prop} {f : Db → α}
    (hcalm : Calm interrupts crash s) (herr : ∀ l, interrupts l s → ∀ e, Q (.error e) s)
    (hok : Q (.ok (f s.db)) s) : wp interrupts crash (select f) Q s :=
  wp_stmt_ok rfl hcalm herr hok

theorem wp_exec {Q : Except Error Unit → Store → Prop} {f : Db → Db}
    (hcalm : Calm interrupts crash s) (herr : ∀ l, interrupts l s → ∀ e, Q (.error e) s)
    (hok : Q (.ok ()) { s with db := f s.db }) : wp interrupts crash (exec f) Q s :=
  wp_stmt_ok rfl hcalm herr hok

/-- A read in a state that is good to stop in. -/
theorem wp_select' {R : α → Store → Prop} {f : Db → α} (hcrash : crash s) (hok : R (f s.db) s) :
    wp interrupts crash (select f) (Outcome crash R) s :=
  wp_select (.of_crash hcrash) (fun _ _ _ => hcrash) hok

/-- A write from a state that is good to stop in. -/
theorem wp_exec' {R : Unit → Store → Prop} {f : Db → Db} (hcrash : crash s)
    (hok : R () { s with db := f s.db }) : wp interrupts crash (exec f) (Outcome crash R) s :=
  wp_exec (.of_crash hcrash) (fun _ _ _ => hcrash) hok

/-- A file operation from a state that is good to stop in. -/
theorem wp_fileStep {R : α → Store → Prop} {act : Store → Except Error α × Store}
    (hcrash : crash s) (hact : Outcome crash R (act s).1 (act s).2) :
    wp interrupts crash (fileStep act) (Outcome crash R) s := by
  rw [fileStep, wp_lift]
  exact ⟨fun _ => ⟨hcrash, fun _ => hcrash⟩, hact⟩

theorem wp_attempt {R : Unit → Store → Prop} {p : StorageM Unit}
    (hp : wp interrupts crash p (Outcome (R ()) R) s) :
    wp interrupts crash (attempt p) (Outcome crash R) s :=
  wp_catch hp fun _ _ hR => hR

end ForgeRelay
