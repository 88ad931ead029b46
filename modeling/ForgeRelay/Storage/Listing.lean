import ForgeRelay.Lib.Paging
import ForgeRelay.Lib.Words
import ForgeRelay.Storage.SharedArtifacts

/-!
# Paging through the artifacts

A client lists the artifacts page by page. Between two pages the threads of the server go on:
artifacts are published, which moves the pages, and deleted. What a client misses is what has been
deleted, and what stands behind something that has been.
-/

namespace ForgeRelay

open Program Prog

variable {sha : Sha256} {contents leaked : Set Bytes}

/-- `ORDER BY created_at DESC, id DESC`. -/
def ArtifactRow.ListedBefore (a b : ArtifactRow) : Prop :=
  b.createdAt.toInt < a.createdAt.toInt ∨ b.createdAt.toInt = a.createdAt.toInt ∧ b.id ≤ a.id

instance : DecidableRel ArtifactRow.ListedBefore := fun a b =>
  inferInstanceAs (Decidable (b.createdAt.toInt < a.createdAt.toInt ∨
    b.createdAt.toInt = a.createdAt.toInt ∧ b.id ≤ a.id))

namespace ArtifactRow.ListedBefore

theorem refl (a : ArtifactRow) : a.ListedBefore a := .inr ⟨rfl, le_rfl⟩

instance : Std.Total ArtifactRow.ListedBefore where
  total a b := by
    unfold ListedBefore
    omega

instance : IsTrans ArtifactRow ArtifactRow.ListedBefore where
  trans a b c := by
    unfold ListedBefore
    omega

theorem antisymm {rows : List ArtifactRow} (hkeys : (rows.map (·.id)).Nodup) {a b : ArtifactRow}
    (ha : a ∈ rows) (hb : b ∈ rows) (h : a.ListedBefore b) (h' : b.ListedBefore a) : a = b := by
  apply List.inj_on_of_nodup_map hkeys ha hb
  unfold ListedBefore at h h'
  omega

end ArtifactRow.ListedBefore

/-- The artifacts that match the filters, in this order. -/
def Db.listing (db : Db) (ns name : Option Bytes) : List ArtifactRow :=
  (db.artifact.filter fun a => ns.all (· == a.ns) && name.all (· == a.name)).insertionSort
    ArtifactRow.ListedBefore

private theorem Db.mem_listing {db : Db} {ns name : Option Bytes} {a : ArtifactRow} :
    a ∈ db.listing ns name ↔
      a ∈ db.artifact ∧ (ns.all (· == a.ns) && name.all (· == a.name)) = true := by
  rw [listing, List.mem_insertionSort, List.mem_filter]

private theorem Db.listing_sorted (db : Db) (ns name : Option Bytes) :
    (db.listing ns name).Pairwise ArtifactRow.ListedBefore := List.pairwise_insertionSort _ _

private theorem Db.listing_nodup {db : Db} (hkeys : (db.artifact.map (·.id)).Nodup)
    (ns name : Option Bytes) : (db.listing ns name).Nodup := by
  apply (List.perm_insertionSort _ _).nodup_iff.mpr
  exact (List.Nodup.of_map _ hkeys).filter _

/-- The page `k` as the handler of LIST_ARTIFACTS gets it. -/
def Threads.page (threads : Threads) (ns name : Option Bytes) (limit : UInt32) (k : Nat) :
    Except Error (List ArtifactInfo) :=
  let offset : UInt32 := .ofNat (k * limit.toNat)
  ((listArtifacts ns name limit.toUInt64.toInt64 offset.toUInt64.toInt64).run threads.state).1

private theorem toInt_toUInt64_toInt64 (x : UInt32) : x.toUInt64.toInt64.toInt = x.toNat := by
  have hlt := x.toNat_lt
  rw [Casts.toInt_toInt64, UInt32.toNat_toUInt64, if_pos (by omega)]

private theorem Threads.page_eq (threads : Threads) (ns name : Option Bytes) {limit : UInt32}
    {k : Nat} (hoffset : k * limit.toNat < 2 ^ 32) :
    threads.page ns name limit k = .ok ((Paging.page (threads.state.db.listing ns name)
      (k * limit.toNat) limit.toNat).map (·.info [])) := by
  have hlimit := toInt_toUInt64_toInt64 limit
  have hcast := toInt_toUInt64_toInt64 (.ofNat (k * limit.toNat))
  rw [UInt32.toNat_ofNat_of_lt' hoffset] at hcast
  rw [page, listArtifacts, if_neg]
  · rw [hlimit, hcast]
    rfl
  · rw [Int64.lt_iff_toInt_lt, Int64.lt_iff_toInt_lt, hlimit, hcast, not_or, not_lt, not_lt]
    exact ⟨Int.natCast_nonneg _, Int.natCast_nonneg _⟩

/-- The threads when the pages are read, with what happens between one page and the next. -/
def Threads.paged (sha : Sha256) (threads : Threads) (between : Nat → List Incident) :
    Nat → Threads
  | 0 => threads
  | k + 1 => (threads.paged sha between k).undergo sha (between k)

section Pages

variable {start : Threads} {between : Nat → List Incident} {pages : Nat}

private theorem Threads.KeepIntact.paged {s₀ : Store}
    (h : start.KeepIntact sha contents (fun _ => True) s₀)
    (hbring : ∀ k < pages, ∀ i ∈ between k, ∀ data ∈ i.chunk?, data ∈ contents) {k : Nat}
    (hk : k ≤ pages) :
    (start.paged sha between k).KeepIntact sha contents (fun _ => True) s₀ := by
  induction k with
  | zero => exact h
  | succ k ih =>
    apply (ih (by omega)).undergo (hbring k hk)
    exact fun _ _ _ _ _ _ => trivial

private theorem Threads.KeepIntact.listing_keeps {s₀ : Store}
    (h : start.KeepIntact sha contents (fun _ => True) s₀)
    (hbring : ∀ k < pages, ∀ i ∈ between k, ∀ data ∈ i.chunk?, data ∈ contents)
    (hfree : ∀ k < pages, (start.paged sha between k).holder = none) {ns name : Option Bytes}
    {a : ArtifactRow} (ha : a ∈ start.state.db.listing ns name)
    (hstays : ∀ k < pages, ∀ b ∈ (start.paged sha between k).state.db.listing ns name,
      b.ListedBefore a → ∀ i ∈ between k, i.deletes? ≠ some b.ref) :
    Paging.Keeps ArtifactRow.ListedBefore
      (fun k => (start.paged sha between k).state.db.listing ns name) pages a := by
  have hkeeps : ∀ k < pages, ∀ b ∈ (start.paged sha between k).state.db.listing ns name,
      b.ListedBefore a → b ∈ (start.paged sha between (k + 1)).state.db.listing ns name := by
    intro k hk b hb hbefore
    obtain ⟨hmem, hmatches⟩ := Db.mem_listing.mp hb
    have hnext := (h.paged hbring hk.le).deletesOnly (hfree k hk) (hbring k hk)
    apply Db.mem_listing.mpr ⟨hnext.state.evolves.keeps b hmem ?_, hmatches⟩
    intro hdeleted
    obtain ⟨i, hi, hdeletes⟩ := hdeleted
    exact hstays k hk b hb hbefore i hi hdeletes
  have hmem : ∀ k ≤ pages, a ∈ (start.paged sha between k).state.db.listing ns name := by
    intro k hk
    induction k with
    | zero => exact ha
    | succ k ih => exact hkeeps k hk a (ih (by omega)) (.refl a)
  have hkeys : ∀ k ≤ pages,
      ((start.paged sha between k).state.db.artifact.map (·.id)).Nodup := fun k hk =>
    (h.paged hbring hk).state.intact.artifactKeys
  constructor
  · exact fun k _ => Db.listing_sorted _ ns name
  · exact fun k hk => Db.listing_nodup (hkeys k hk) ns name
  · intro k hk b hb
    apply ArtifactRow.ListedBefore.antisymm (hkeys k hk) (Db.mem_listing.mp hb).1
    exact (Db.mem_listing.mp (hmem k hk)).1
  · exact hmem
  · exact hkeeps

end Pages

/-- A client pages through the artifacts, while the threads of the server do anything between the
pages. Once a page is not full, it has seen every artifact that it has asked for and that has been
there from the first page on, as long as neither this one is deleted nor one that stands before
it. A page is what `list_artifacts` returns; of more than 4096 items no client can decode it. -/
theorem listing_complete {store : Store} (hinv : StoreInv sha contents leaked store)
    {before : List Incident} {between : Nat → List Incident} {pages : Nat}
    (hbring : ∀ i ∈ before, ∀ data ∈ i.chunk?, data ∈ contents)
    (hbrings : ∀ k < pages, ∀ i ∈ between k, ∀ data ∈ i.chunk?, data ∈ contents)
    {threads : Nat → Threads}
    (hthreads : ((Threads.idle store).undergo sha before).paged sha between = threads)
    (hfree : ∀ k < pages, (threads k).holder = none) {ns name : Option Bytes} {limit : UInt32}
    (hoffsets : pages * limit.toNat < 2 ^ 32) {last : List ArtifactInfo}
    (hlast : (threads pages).page ns name limit pages = .ok last)
    (hshort : last.length < limit.toNat) {a : ArtifactRow}
    (ha : a ∈ (threads 0).state.db.listing ns name)
    (hstays : ∀ k < pages, ∀ b ∈ (threads k).state.db.listing ns name, b.ListedBefore a →
      ∀ i ∈ between k, i.deletes? ≠ some b.ref) :
    ∃ k ≤ pages, ∃ items, (threads k).page ns name limit k = .ok items ∧ a.info [] ∈ items := by
  subst hthreads
  have hstart : ((Threads.idle store).undergo sha before).KeepIntact sha contents
      (fun _ => True) store :=
    (Threads.idle_keepIntact hinv.artifactsInv).undergo hbring fun _ _ _ _ _ _ => trivial
  have hkeeps := hstart.listing_keeps hbrings hfree ha hstays
  rw [Threads.page_eq _ _ _ hoffsets] at hlast
  injection hlast with hlast
  rw [← hlast, List.length_map] at hshort
  obtain ⟨k, hk, hpage⟩ := hkeeps.exists_page hshort
  have hoffset : k * limit.toNat < 2 ^ 32 :=
    lt_of_le_of_lt (Nat.mul_le_mul_right _ hk) hoffsets
  exact ⟨k, hk, _, Threads.page_eq _ _ _ hoffset, List.mem_map_of_mem hpage⟩

/-- A release while the client reads on. -/
def sampleBetween : Nat → List Incident
  | 0 => List.map (.turn sampleConfig)
    ([Call.createSession (ascii "team") (ascii "app") (ascii "1.1") 1 (sampleSha.hex (ascii "a"))
      (ascii "alice"), .putChunk (ascii "s2") 0 (ascii "a"), .commitSession (ascii "s2")].flatMap
      fun call => Turn.request call ⟨3, ascii "s2", ascii "2"⟩ :: List.replicate 24 Turn.holder)
  | _ => sampleAftermath

def samplePaged : Nat → Threads :=
  ((Threads.idle .empty).undergo sampleSha sampleIncidents).paged sampleSha sampleBetween

/-- Pages of one artifact: the new release moves the old one to the second page. -/
theorem listing_complete_sample : ∃ a ∈ (samplePaged 0).state.db.listing none none,
    ∃ k ≤ 2, ∃ items, (samplePaged k).page none none 1 k = .ok items ∧ a.info [] ∈ items := by
  have hbring : ∀ incidents : List Incident,
      (∀ data ∈ incidents.filterMap (·.chunk?), data = ascii "a") →
      ∀ i ∈ incidents, ∀ data ∈ i.chunk?, data ∈ ({ascii "a"} : Set Bytes) :=
    fun _ h i hi data hdata => h data (List.mem_filterMap.mpr ⟨i, hi, hdata⟩)
  have hpublished : (samplePaged 0).state.db.listing none none ≠ [] := by decide +kernel
  obtain ⟨a, ha⟩ := List.exists_mem_of_ne_nil _ hpublished
  have hfree : ∀ k < 2, (samplePaged k).holder.isNone = true := by decide +kernel
  have hdeletes : ∀ k, (sampleBetween k).filterMap (·.deletes?) = [] := by
    intro k
    cases k with
    | zero => decide +kernel
    | succ k =>
      change sampleAftermath.filterMap (·.deletes?) = []
      decide +kernel
  have hthreads : ((Threads.idle .empty).undergo sampleSha sampleIncidents).paged sampleSha
      sampleBetween = samplePaged := by rw [samplePaged]
  refine ⟨a, ha, listing_complete (.empty sampleSha {ascii "a"} ∅) (hbring sampleIncidents ?_)
    (fun k _ => hbring (sampleBetween k) ?_) hthreads
    (fun k hk => Option.isNone_iff_eq_none.mp (hfree k hk)) (by decide)
    (Threads.page_eq _ _ _ (by decide)) ?_ ha ?_⟩
  · decide +kernel
  · cases k with
    | zero => decide +kernel
    | succ k =>
      change ∀ data ∈ sampleAftermath.filterMap (·.chunk?), data = ascii "a"
      decide +kernel
  · decide +kernel
  · intro k _ b _ _ i hi hsome
    have hmem := List.mem_filterMap.mpr ⟨i, hi, hsome⟩
    rw [hdeletes k] at hmem
    cases hmem

end ForgeRelay
