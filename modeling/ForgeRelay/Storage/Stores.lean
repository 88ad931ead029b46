import ForgeRelay.Storage.Depot
import ForgeRelay.Storage.Durability
import Mathlib.Algebra.BigOperators.Group.List.Basic
import Mathlib.Data.Nat.Cast.Basic

/-!
# Which depot a store stands for

Its uploads are the rows of sessions with their parts, its releases the rows of artifacts with
their manifests, and its garbage the chunks that are marked.
-/

namespace ForgeRelay

open Program Prog

/-- The row that registers a part. -/
def Part.row (sha : Sha256) (id : Bytes) (p : Part) : PartRow :=
  ⟨id, p.ordinal, sha.hex p.data, UInt64.ofNat p.data.length⟩

/-- The largest chunk size that a configuration may have. -/
def maxChunk : Nat := 8 * 1024 * 1024

/-- The tables of uploads and of artifacts are those of the depot. -/
structure Holds (sha : Sha256) (contents : Set Bytes) (d : Depot) (db : Db) : Prop where
  sessions : db.uploadSession = d.uploads.map (·.session)
  parts : ∀ u ∈ d.uploads, db.uploadPart.filter (·.sessionId == u.session.id) =
    u.parts.map (Part.row sha u.session.id)
  known : ∀ u ∈ d.uploads, ∀ p ∈ u.parts, p.data ∈ contents ∧ p.data.length ≤ maxChunk
  chunkSizes : ∀ u ∈ d.uploads, u.session.chunkSize.toNat ≤ maxChunk
  closed : ∀ u ∈ d.uploads, u.session.state = .expired ∨ u.session.state = .aborted → u.parts = []
  artifacts : db.artifact = d.releases.map (·.row)
  manifests : ∀ r ∈ d.releases, Depicts sha contents (db.manifest r.row.id) r.row r.chunks
  owned : ∀ e ∈ db.artifactChunk, ∃ a ∈ db.artifact, a.id = e.artifactId
  issued : db.artifactSeq = d.issued

/-- The row is that of a content, with its size. -/
def ChunkRow.Measures (sha : Sha256) (contents : Set Bytes) (c : ChunkRow) : Prop :=
  ∃ data ∈ contents, c.digest = sha.hex data ∧ c.rawSize = Int64.ofNat data.length ∧
    data.length ≤ maxChunk

/-- The content has been marked since then. -/
def Db.Marked (sha : Sha256) (db : Db) (data : Bytes) (since : Int64) : Prop :=
  ∃ c ∈ db.chunk, c.digest = sha.hex data ∧ c.state = .pendingDelete ∧ c.pendingAt = some since

/-- The store stands for the depot. -/
structure Stores (sha : Sha256) (contents : Set Bytes) (d : Depot) (s : Store) : Prop where
  holds : Holds sha contents d s.db
  inv : StoreInv sha contents ∅ s
  tmp : s.tmp = []
  sizes : ∀ c ∈ s.db.chunk, c.Measures sha contents
  garbage : ∀ data since, (data, since) ∈ d.garbage ↔
    data ∈ contents ∧ s.db.Marked sha data since
  garbageKeys : (d.garbage.map (·.1)).Nodup

theorem Stores.empty (sha : Sha256) (contents : Set Bytes) :
    Stores sha contents .empty .empty := by
  refine ⟨⟨rfl, ?_, ?_, ?_, ?_, rfl, ?_, ?_, rfl⟩, .empty _ _ _, rfl, ?_, ?_, ?_⟩ <;>
    simp [Depot.empty, Store.empty, Db.empty, Db.Marked]

variable {sha : Sha256} {contents : Set Bytes} {d d' : Depot} {db db' : Db} {s s' : Store}

namespace Holds

variable (h : Holds sha contents d db)

include h

theorem session? (id : Bytes) : db.session? id = (d.upload? id).map (·.session) := by
  rw [Db.session?, h.sessions, List.find?_map]
  rfl

theorem artifact? (ns name version : Bytes) :
    db.artifact? ns name version = (d.release? ns name version).map (·.row) := by
  rw [Db.artifact?, h.artifacts, List.find?_map]
  rfl

theorem artifact?_some {ns name version : Bytes} {r : Release}
    (hr : d.release? ns name version = some r) : db.artifact? ns name version = some r.row := by
  rw [h.artifact?, hr]
  rfl

theorem artifact?_none {ns name version : Bytes} (hr : d.release? ns name version = none) :
    db.artifact? ns name version = none := by
  rw [h.artifact?, hr]
  rfl

theorem upload_of_part (hrows : RowsInv sha contents db) {p : PartRow} (hp : p ∈ db.uploadPart) :
    ∃ u ∈ d.uploads, u.session.id = p.sessionId ∧
      ∃ part ∈ u.parts, part.row sha u.session.id = p := by
  obtain ⟨session, hsession, hid⟩ := hrows.partSession p hp
  rw [h.sessions, List.mem_map] at hsession
  obtain ⟨u, hu, rfl⟩ := hsession
  have hmem : p ∈ db.uploadPart.filter (·.sessionId == u.session.id) :=
    List.mem_filter.mpr ⟨hp, beq_iff_eq.mpr hid.symm⟩
  rw [h.parts u hu, List.mem_map] at hmem
  exact ⟨u, hu, hid, hmem⟩

private theorem part_mem {u : Upload} (hu : u ∈ d.uploads) {part : Part} (hpart : part ∈ u.parts) :
    part.row sha u.session.id ∈ db.uploadPart := by
  have hmem : part.row sha u.session.id ∈ u.parts.map (Part.row sha u.session.id) :=
    List.mem_map_of_mem hpart
  rw [← h.parts u hu] at hmem
  exact (List.mem_filter.mp hmem).1

theorem live_known {data : Bytes} (hdata : data ∈ d.live) : data ∈ contents := by
  rcases List.mem_append.mp hdata with hdata | hdata
  · obtain ⟨r, hr, hdata⟩ := List.mem_flatMap.mp hdata
    exact (h.manifests r hr).known data hdata
  · obtain ⟨u, hu, hdata⟩ := List.mem_flatMap.mp hdata
    rw [Upload.held] at hdata
    split at hdata
    · obtain ⟨p, hp, rfl⟩ := List.mem_map.mp hdata
      exact (h.known u hu p hp).1
    · cases hdata

theorem referenced (hrows : RowsInv sha contents db) (hsha : sha.NoCollision contents)
    {data : Bytes} (hdata : data ∈ contents) :
    db.Referenced (sha.hex data) ↔ data ∈ d.live := by
  rw [Depot.live, List.mem_append, List.mem_flatMap, List.mem_flatMap]
  constructor
  · intro href
    rcases href with hmanifest | hpart
    · obtain ⟨e, he, hdigest⟩ := Db.inManifest_iff.mp hmanifest
      obtain ⟨a, ha, hid⟩ := h.owned e he
      rw [h.artifacts, List.mem_map] at ha
      obtain ⟨r, hr, rfl⟩ := ha
      have hentry : e.entry ∈ db.manifest r.row.id := Db.mem_manifest.mpr ⟨e, he, hid.symm, rfl⟩
      rw [(h.manifests r hr).manifest] at hentry
      obtain ⟨data', hdata', hhex⟩ := mem_manifestOf_digest.mp ⟨e.entry, hentry, hdigest⟩
      have hknown := (h.manifests r hr).known data' hdata'
      rw [hsha.eq_of_hex hknown hdata hhex] at hdata'
      exact .inl ⟨r, hr, hdata'⟩
    · obtain ⟨p, hp, hdigest, session, hsession, hid, hlive⟩ := Db.inLivePart_iff.mp hpart
      obtain ⟨u, hu, huid, part, hpart, rfl⟩ := h.upload_of_part hrows hp
      rw [h.sessions, List.mem_map] at hsession
      obtain ⟨u', hu', rfl⟩ := hsession
      have hsame : u'.session = u.session :=
        Table.eq_of_key hrows.sessionKeys (h.sessions ▸ List.mem_map_of_mem hu')
          (h.sessions ▸ List.mem_map_of_mem hu) (hid.trans huid.symm)
      rw [hsame] at hlive
      have heq := hsha.eq_of_hex (h.known u hu part hpart).1 hdata hdigest
      refine .inr ⟨u, hu, ?_⟩
      rw [Upload.held, if_pos hlive]
      exact List.mem_map.mpr ⟨part, hpart, heq⟩
  · intro hlive
    rcases hlive with ⟨r, hr, hchunk⟩ | ⟨u, hu, hheld⟩
    · exact (h.manifests r hr).referenced hchunk
    · rw [Upload.held] at hheld
      split at hheld
      · rename_i hlive
        obtain ⟨part, hpart, rfl⟩ := List.mem_map.mp hheld
        refine .inr (Db.inLivePart_iff.mpr ⟨_, h.part_mem hu hpart, rfl, u.session, ?_, rfl, hlive⟩)
        rw [h.sessions]
        exact List.mem_map_of_mem hu
      · cases hheld

private theorem not_awaits (hrows : RowsInv sha contents db) (digest : Bytes) :
    ¬ db.AwaitsCleanup digest := by
  rintro ⟨p, hp, -, session, hsession, hid, hstate⟩
  obtain ⟨u, hu, huid, part, hpart, rfl⟩ := h.upload_of_part hrows hp
  rw [h.sessions, List.mem_map] at hsession
  obtain ⟨u', hu', rfl⟩ := hsession
  have hsame : u'.session = u.session :=
    Table.eq_of_key hrows.sessionKeys (h.sessions ▸ List.mem_map_of_mem hu')
      (h.sessions ▸ List.mem_map_of_mem hu) (hid.trans huid.symm)
  rw [hsame] at hstate
  rw [h.closed u hu hstate] at hpart
  cases hpart

end Holds

theorem Depot.upload?_some {id : Bytes} {u : Upload} (h : d.upload? id = some u) :
    u ∈ d.uploads ∧ u.session.id = id :=
  ⟨List.mem_of_find?_eq_some h, by simpa using List.find?_some h⟩

theorem Depot.release?_some {ns name version : Bytes} {r : Release}
    (h : d.release? ns name version = some r) : r ∈ d.releases ∧ r.row.ref = (ns, name, version) :=
  ⟨List.mem_of_find?_eq_some h, ArtifactRow.hasRef_iff.mp
    (List.find?_some (p := fun r : Release => r.row.hasRef ns name version) h)⟩

/-- What an operation at this time may make of a row. -/
structure ChunkRow.Becomes (now : Int64) (c c' : ChunkRow) : Prop where
  digest : c'.digest = c.digest
  rawSize : c'.rawSize = c.rawSize
  state : c'.state = .active ∨ c'.state = .pendingDelete ∧
    (c.state = .pendingDelete ∧ c'.pendingAt = c.pendingAt ∨
      c.state = .active ∧ c'.pendingAt = some now)

/-- No row goes; a new one is active. -/
structure Tended (sha : Sha256) (contents : Set Bytes) (now : Int64)
    (rows rows' : List ChunkRow) : Prop where
  came : ∀ c' ∈ rows', (∃ c ∈ rows, c.Becomes now c') ∨
    c'.state = .active ∧ c'.Measures sha contents
  kept : ∀ c ∈ rows, ∃ c' ∈ rows', c.Becomes now c'

theorem ChunkRow.Becomes.refl (now : Int64) (c : ChunkRow) : c.Becomes now c := by
  refine ⟨rfl, rfl, ?_⟩
  cases hstate : c.state with
  | active => exact .inl rfl
  | pendingDelete => exact .inr ⟨rfl, .inl ⟨rfl, rfl⟩⟩

theorem Tended.update {now : Int64} {p : ChunkRow → Bool} {f : ChunkRow → ChunkRow}
    {rows : List ChunkRow} (hf : ∀ c, p c = true → c.Becomes now (f c)) :
    Tended sha contents now rows (Table.update p f rows) := by
  have hbecomes : ∀ c : ChunkRow, c.Becomes now (if p c then f c else c) := by
    intro c
    split
    · rename_i hp
      exact hf c hp
    · exact .refl now c
  constructor
  · intro c' hc'
    obtain ⟨c, hc, rfl⟩ := Table.mem_update.mp hc'
    exact .inl ⟨c, hc, hbecomes c⟩
  · intro c hc
    exact ⟨_, Table.mem_update.mpr ⟨c, hc, rfl⟩, hbecomes c⟩

private theorem Tended.measures {now : Int64} {rows rows' : List ChunkRow}
    (h : Tended sha contents now rows rows') (hrows : ∀ c ∈ rows, c.Measures sha contents) :
    ∀ c ∈ rows', c.Measures sha contents := by
  intro c' hc'
  rcases h.came c' hc' with ⟨c, hc, hbecomes⟩ | ⟨-, hmeasures⟩
  · obtain ⟨data, hdata, hdigest, hsize, hlength⟩ := hrows c hc
    exact ⟨data, hdata, hbecomes.digest.trans hdigest, hbecomes.rawSize.trans hsize, hlength⟩
  · exact hmeasures

private theorem Holds.active_referenced (h : Holds sha contents d s.db)
    (hinv : StoreInv sha contents ∅ s)
    {c : ChunkRow} (hc : c ∈ s.db.chunk) (hactive : c.state = .active) :
    s.db.Referenced c.digest := by
  rcases hinv.accounted c hc hactive (Set.notMem_empty _) with href | hawaits
  · exact href
  · exact absurd hawaits (h.not_awaits hinv.rows _)

theorem Holds.active_iff (h : Holds sha contents d s.db) (hinv : StoreInv sha contents ∅ s)
    (hsha : sha.NoCollision contents) {c : ChunkRow} (hc : c ∈ s.db.chunk) {data : Bytes}
    (hdata : data ∈ contents) (hdigest : c.digest = sha.hex data) :
    c.state = .active ↔ data ∈ d.live := by
  rw [← h.referenced hinv.rows hsha hdata, ← hdigest]
  constructor
  · exact h.active_referenced hinv hc
  · intro href
    obtain ⟨c', hc', hsame, hactive⟩ := (hinv.held _ href).row
    rwa [Table.eq_of_key hinv.rows.chunkKeys hc hc' hsame.symm]

namespace Stores

variable (h : Stores sha contents d s)

include h

theorem live_row (hsha : sha.NoCollision contents) {data : Bytes} (hlive : data ∈ d.live) :
    ∃ c ∈ s.db.chunk, c.digest = sha.hex data ∧ c.state = .active :=
  (h.inv.held _ ((h.holds.referenced h.inv.rows hsha (h.holds.live_known hlive)).mpr hlive)).row

private theorem garbage_dead (hsha : sha.NoCollision contents) {data : Bytes} {since : Int64}
    (hgarbage : (data, since) ∈ d.garbage) : data ∉ d.live := by
  intro hlive
  obtain ⟨hdata, c, hc, hdigest, hstate, -⟩ := (h.garbage data since).mp hgarbage
  rw [(h.holds.active_iff h.inv hsha hc hdata hdigest).mpr hlive] at hstate
  cases hstate

end Stores

theorem Depot.mem_dropped {before after : Depot} {data : Bytes} :
    data ∈ before.dropped after ↔ data ∈ before.live ∧ data ∉ after.live := by
  simp [Depot.dropped]

theorem Stores.settle (h : Stores sha contents d s) (hsha : sha.NoCollision contents)
    {now : Int64} (hholds : Holds sha contents d' s'.db) (hinv : StoreInv sha contents ∅ s')
    (htmp : s'.tmp = []) (htended : Tended sha contents now s.db.chunk s'.db.chunk) :
    Stores sha contents (d.settle now d') s' := by
  have hsizes := htended.measures h.sizes
  have hactive {c : ChunkRow} (hc : c ∈ s'.db.chunk) {data : Bytes} (hdata : data ∈ contents)
      (hdigest : c.digest = sha.hex data) : c.state = .active ↔ data ∈ d'.live :=
    hholds.active_iff hinv hsha hc hdata hdigest
  refine ⟨⟨hholds.sessions, hholds.parts, hholds.known, hholds.chunkSizes, hholds.closed,
    hholds.artifacts, hholds.manifests, hholds.owned, hholds.issued⟩, hinv, htmp, hsizes, ?_, ?_⟩
  · intro data since
    simp only [Depot.settle, List.mem_append, List.mem_filter, List.mem_map, Prod.mk.injEq,
      Bool.not_eq_true', List.contains_eq_mem, decide_eq_false_iff_not, Depot.mem_dropped]
    constructor
    · rintro (⟨hold, hdead⟩ | ⟨data', ⟨hlive, hdead⟩, rfl, rfl⟩)
      · obtain ⟨hdata, c, hc, hdigest, hstate, hsince⟩ := (h.garbage data since).mp hold
        obtain ⟨c', hc', hbecomes⟩ := htended.kept c hc
        refine ⟨hdata, c', hc', hbecomes.digest.trans hdigest, ?_⟩
        rcases hbecomes.state with hstate' | ⟨hstate', hpending | hmarked⟩
        · rw [hactive hc' hdata (hbecomes.digest.trans hdigest)] at hstate'
          exact absurd hstate' hdead
        · exact ⟨hstate', hpending.2.trans hsince⟩
        · rw [hstate] at hmarked
          cases hmarked.1
      · have hdata := h.holds.live_known hlive
        obtain ⟨c, hc, hdigest, hstate⟩ := h.live_row hsha hlive
        obtain ⟨c', hc', hbecomes⟩ := htended.kept c hc
        refine ⟨hdata, c', hc', hbecomes.digest.trans hdigest, ?_⟩
        rcases hbecomes.state with hstate' | ⟨hstate', hpending | hmarked⟩
        · rw [hactive hc' hdata (hbecomes.digest.trans hdigest)] at hstate'
          exact absurd hstate' hdead
        · rw [hstate] at hpending
          cases hpending.1
        · exact ⟨hstate', hmarked.2⟩
    · rintro ⟨hdata, c', hc', hdigest, hstate', hsince⟩
      have hdead : data ∉ d'.live := by
        intro hlive
        rw [(hactive hc' hdata hdigest).mpr hlive] at hstate'
        cases hstate'
      rcases htended.came c' hc' with ⟨c, hc, hbecomes⟩ | ⟨hnew, -⟩
      · have hdigest' := hbecomes.digest.symm.trans hdigest
        rcases hbecomes.state with hstate | ⟨-, hpending | hmarked⟩
        · rw [hstate] at hstate'
          cases hstate'
        · refine .inl ⟨(h.garbage data since).mpr ⟨hdata, c, hc, hdigest', hpending.1, ?_⟩, hdead⟩
          rw [← hpending.2, hsince]
        · refine .inr ⟨data, ⟨?_, hdead⟩, rfl, ?_⟩
          · exact (h.holds.active_iff h.inv hsha hc hdata hdigest').mp hmarked.1
          exact Option.some.inj (hmarked.2.symm.trans hsince)
      · rw [hnew] at hstate'
        cases hstate'
  · simp only [Depot.settle, List.map_append, List.map_map, Function.comp_def, List.map_id']
    refine List.nodup_append.mpr ⟨h.garbageKeys.sublist (List.filter_sublist.map _),
      (List.nodup_dedup _).filter _, ?_⟩
    rintro data hold data' hdropped rfl
    obtain ⟨⟨data', since⟩, hmem, rfl⟩ := List.mem_map.mp hold
    exact h.garbage_dead hsha (List.mem_filter.mp hmem).1 (Depot.mem_dropped.mp hdropped).1

theorem Stores.recount (h : Stores sha contents d s) (changes : Nat) :
    Stores sha contents d { s with changes := changes } :=
  ⟨h.holds, h.inv.congr rfl rfl, h.tmp, h.sizes, h.garbage, h.garbageKeys⟩

theorem Stores.unsettled (h : Stores sha contents d s)
    (hholds : Holds sha contents d' s'.db) (hinv : StoreInv sha contents ∅ s')
    (htmp : s'.tmp = []) (hchunk : s'.db.chunk = s.db.chunk) (hgarbage : d'.garbage = d.garbage) :
    Stores sha contents d' s' := by
  refine ⟨hholds, hinv, htmp, hchunk ▸ h.sizes, ?_, hgarbage ▸ h.garbageKeys⟩
  intro data since
  rw [hgarbage, h.garbage, Db.Marked, Db.Marked, hchunk]

private theorem sum_rawSize {rows : List ChunkRow} {datas : List Bytes}
    (hsha : sha.NoCollision contents) (hkeys : (rows.map (·.digest)).Nodup) (hdatas : datas.Nodup)
    (hknown : ∀ data ∈ datas, data ∈ contents) (hsizes : ∀ c ∈ rows, c.Measures sha contents)
    (hmem : ∀ data ∈ contents, data ∈ datas ↔ ∃ c ∈ rows, c.digest = sha.hex data) :
    (rows.map fun c => (c.digest, c.rawSize)).Perm
      (datas.map fun data => (sha.hex data, Int64.ofNat data.length)) := by
  apply (List.perm_ext_iff_of_nodup ?_ ?_).mpr
  · intro pair
    rw [List.mem_map, List.mem_map]
    constructor
    · rintro ⟨c, hc, rfl⟩
      obtain ⟨data, hdata, hdigest, hsize, -⟩ := hsizes c hc
      exact ⟨data, (hmem data hdata).mpr ⟨c, hc, hdigest⟩, by rw [hdigest, hsize]⟩
    · rintro ⟨data, hdata, rfl⟩
      obtain ⟨c, hc, hdigest⟩ := (hmem data (hknown data hdata)).mp hdata
      obtain ⟨data', hdata', hdigest', hsize, -⟩ := hsizes c hc
      have heq := hsha.eq_of_hex (hknown data hdata) hdata' (hdigest.symm.trans hdigest')
      exact ⟨c, hc, by rw [hdigest, hsize, heq]⟩
  · apply List.Nodup.of_map Prod.fst
    rw [List.map_map]
    exact hkeys
  · apply List.Nodup.of_map Prod.fst
    rw [List.map_map]
    apply hdatas.map_on
    intro a ha b hb hab
    exact hsha.eq_of_hex (hknown a ha) (hknown b hb) hab

theorem Stores.sumActive (h : Stores sha contents d s) (hsha : sha.NoCollision contents) :
    s.db.sumActive = if d.used < 2^63 then .ok (Int64.ofNat d.used)
      else .error (stepError "integer overflow") := by
  have hperm : ((s.db.chunk.filter (·.state == .active)).map fun c => (c.digest, c.rawSize)).Perm
      (d.live.dedup.map fun data => (sha.hex data, Int64.ofNat data.length)) := by
    apply sum_rawSize hsha (h.inv.rows.chunkKeys.sublist (List.filter_sublist.map _))
      (List.nodup_dedup _)
    · intro data hdata
      exact h.holds.live_known (List.mem_dedup.mp hdata)
    · intro c hc
      exact h.sizes c (List.mem_filter.mp hc).1
    · intro data hdata
      rw [List.mem_dedup]
      constructor
      · intro hlive
        obtain ⟨c, hc, hdigest, hactive⟩ := h.live_row hsha hlive
        exact ⟨c, List.mem_filter.mpr ⟨hc, beq_iff_eq.mpr hactive⟩, hdigest⟩
      · rintro ⟨c, hc, hdigest⟩
        obtain ⟨hc, hactive⟩ := List.mem_filter.mp hc
        exact (h.holds.active_iff h.inv hsha hc hdata hdigest).mp (beq_iff_eq.mp hactive)
  have hshort : ∀ data ∈ d.live.dedup, (Int64.ofNat data.length).toInt = (data.length : Int) := by
    intro data hdata
    obtain ⟨c, hc, hdigest, -⟩ := h.live_row hsha (List.mem_dedup.mp hdata)
    obtain ⟨data', hdata', hdigest', -, hlength⟩ := h.sizes c hc
    have heq := hsha.eq_of_hex (h.holds.live_known (List.mem_dedup.mp hdata)) hdata'
      (hdigest.symm.trans hdigest')
    rw [heq]
    exact Int64.toInt_ofNat_of_lt (lt_of_le_of_lt hlength (by decide))
  have hsum : ((s.db.chunk.filter (·.state == .active)).map (·.rawSize.toInt)).sum =
      (d.used : Int) := by
    have hsums := (hperm.map fun pair => pair.2.toInt).sum_eq
    rw [List.map_map, List.map_map] at hsums
    refine hsums.trans ?_
    have hcast : (d.used : Int) = ((d.live.dedup.map List.length).map Nat.cast).sum :=
      map_list_sum (Nat.castAddMonoidHom ℤ) _
    rw [hcast, List.map_map]
    congr 1
    apply List.map_congr_left
    exact hshort
  rw [Db.sumActive, sumRawSize]
  rw [hsum]
  by_cases hused : d.used < 2^63
  · rw [if_pos hused, if_pos (by omega)]
    rfl
  · rw [if_neg hused, if_neg (by omega)]

end ForgeRelay
