import ForgeRelay.Lib.Words
import ForgeRelay.Service.Settings

/-!
# Loading the settings

`load_server_config` takes 64-bit integers from the file and casts each of them to the type of its
setting before the settings are checked. A value that the cast changes is accepted if what comes
out of the cast is.
-/

namespace ForgeRelay

/-- A parsed file: what `value` of the node under a section and a key gives, if there is such a node
of that type. -/
structure TomlTable where
  int : String → String → Option Int64
  text : String → String → Option Bytes
  bool : String → String → Option Bool

/-- `ServerSettings` with its default values. -/
def defaultSettings : ServerSettings where
  listen := ascii "127.0.0.1:7443"
  maxConnections := 128
  workerThreads := 4
  requestTimeoutSeconds := 120
  tls := ⟨false, [], []⟩
  log := ⟨ascii "info", ascii "json", [], 100 * 1024 * 1024, 5⟩
  storage :=
    { rootEmpty := true
      chunkSize := 4 * 1024 * 1024
      capacityBytes := 100 * 1024 * 1024 * 1024
      highWatermarkPercent := 85
      sessionHours := 24
      gcGraceSeconds := 3600
      maxSessionsPerOwner := 8 }
  databasePath := []

/-- The default of a `uint64_t` setting as a TOML integer. -/
def clampToInt64 (n : UInt64) : Int64 :=
  if 0x7FFFFFFFFFFFFFFF < n then 0x7FFFFFFFFFFFFFFF else n.toInt64

/-- The settings that `load_server_config` makes of the file. -/
def tableSettings (table : TomlTable) : ServerSettings :=
  let settings := defaultSettings
  { listen := (table.text "server" "listen").getD settings.listen
    maxConnections :=
      ((table.int "server" "max_connections").getD settings.maxConnections.toInt64).toInt32
    workerThreads :=
      ((table.int "server" "worker_threads").getD settings.workerThreads.toInt64).toInt32
    requestTimeoutSeconds := settings.requestTimeoutSeconds
    tls :=
      { enabled := (table.bool "tls" "enabled").getD settings.tls.enabled
        certificate := (table.text "tls" "certificate").getD settings.tls.certificate
        privateKey := (table.text "tls" "private_key").getD settings.tls.privateKey }
    log :=
      { level := (table.text "logging" "level").getD settings.log.level
        format := (table.text "logging" "format").getD settings.log.format
        file := (table.text "logging" "file").getD settings.log.file
        maxFileBytes :=
          ((table.int "logging" "max_file_bytes").getD
            (clampToInt64 settings.log.maxFileBytes)).toUInt64
        keepFiles :=
          ((table.int "logging" "keep_files").getD settings.log.keepFiles.toInt64).toInt32 }
    storage :=
      { rootEmpty := ((table.text "storage" "root").getD []).isEmpty
        chunkSize :=
          ((table.int "storage" "chunk_size").getD settings.storage.chunkSize.toInt64).toUInt64
        capacityBytes :=
          ((table.int "storage" "capacity_bytes").getD
            (clampToInt64 settings.storage.capacityBytes)).toUInt64
        highWatermarkPercent :=
          ((table.int "storage" "high_watermark_percent").getD
            settings.storage.highWatermarkPercent.toInt64).toInt32
        sessionHours :=
          ((table.int "storage" "upload_session_hours").getD
            settings.storage.sessionHours.toInt64).toInt32
        gcGraceSeconds :=
          ((table.int "storage" "gc_grace_seconds").getD
            settings.storage.gcGraceSeconds.toInt64).toInt32
        maxSessionsPerOwner :=
          ((table.int "storage" "max_sessions_per_owner").getD
            settings.storage.maxSessionsPerOwner.toInt64).toInt32 }
    databasePath := (table.text "database" "path").getD settings.databasePath }

/-- `load_server_config`, where the parser reads the file at the path. -/
def loadServerConfig (parseFile : Bytes → Except Bytes TomlTable) (path : Bytes) :
    Except Error ServerSettings :=
  if path = [] then .error (.of .eArg "config: config path is empty")
  else
    match parseFile path with
    | .error what => .error (.ofMessage .eArg (ascii "config: TOML parse error: " ++ what))
    | .ok table =>
      let settings := tableSettings table
      (validateServerSettings settings).map fun _ => settings

/-- The settings that are integers in the file. -/
inductive IntSetting
  | maxConnections | workerThreads | capacityBytes | highWatermarkPercent | uploadSessionHours
  | chunkSize | gcGraceSeconds | maxSessionsPerOwner | maxFileBytes | keepFiles
  deriving DecidableEq, Repr

namespace IntSetting

/-- Section and key in the file. -/
def key : IntSetting → String × String
  | maxConnections => ("server", "max_connections")
  | workerThreads => ("server", "worker_threads")
  | capacityBytes => ("storage", "capacity_bytes")
  | highWatermarkPercent => ("storage", "high_watermark_percent")
  | uploadSessionHours => ("storage", "upload_session_hours")
  | chunkSize => ("storage", "chunk_size")
  | gcGraceSeconds => ("storage", "gc_grace_seconds")
  | maxSessionsPerOwner => ("storage", "max_sessions_per_owner")
  | maxFileBytes => ("logging", "max_file_bytes")
  | keepFiles => ("logging", "keep_files")

def defaultValue : IntSetting → Int64
  | maxConnections => 128
  | workerThreads => 4
  | capacityBytes => 100 * 1024 * 1024 * 1024
  | highWatermarkPercent => 85
  | uploadSessionHours => 24
  | chunkSize => 4 * 1024 * 1024
  | gcGraceSeconds => 3600
  | maxSessionsPerOwner => 8
  | maxFileBytes => 100 * 1024 * 1024
  | keepFiles => 5

/-- The documented range. -/
def InRange : IntSetting → Int → Prop
  | maxConnections, n => 16 ≤ n ∧ n ≤ 1024
  | workerThreads, n => 1 ≤ n ∧ n ≤ 32
  | capacityBytes, n => 1 ≤ n
  | highWatermarkPercent, n => 1 ≤ n ∧ n ≤ 100
  | uploadSessionHours, n => 1 ≤ n ∧ n ≤ 168
  | chunkSize, n => 1024 * 1024 ≤ n ∧ n ≤ 8 * 1024 * 1024
  | gcGraceSeconds, n => 0 ≤ n
  | maxSessionsPerOwner, n => 1 ≤ n ∧ n ≤ 64
  | maxFileBytes, n => 1 ≤ n
  | keepFiles, n => 1 ≤ n

/-- The setting is a `uint64_t`; the others are `int`. -/
def isUnsigned : IntSetting → Bool
  | capacityBytes | chunkSize | maxFileBytes => true
  | _ => false

/-- The integers of the setting's type. -/
def Fits (f : IntSetting) (n : Int) : Prop :=
  if f.isUnsigned then 0 ≤ n ∧ n < 2^64 else -2^31 ≤ n ∧ n < 2^31

/-- What the cast to the setting's type makes of an integer. -/
def cast (f : IntSetting) (n : Int) : Int :=
  if f.isUnsigned then n % 2^64 else n.bmod (2^32)

end IntSetting

/-- The integer in the file, or the default. -/
def TomlTable.value (table : TomlTable) (f : IntSetting) : Int :=
  ((table.int f.key.1 f.key.2).getD f.defaultValue).toInt

/-- The integer among the settings. -/
def ServerSettings.value (settings : ServerSettings) : IntSetting → Int
  | .maxConnections => settings.maxConnections.toInt
  | .workerThreads => settings.workerThreads.toInt
  | .capacityBytes => settings.storage.capacityBytes.toNat
  | .highWatermarkPercent => settings.storage.highWatermarkPercent.toInt
  | .uploadSessionHours => settings.storage.sessionHours.toInt
  | .chunkSize => settings.storage.chunkSize.toNat
  | .gcGraceSeconds => settings.storage.gcGraceSeconds.toInt
  | .maxSessionsPerOwner => settings.storage.maxSessionsPerOwner.toInt
  | .maxFileBytes => settings.log.maxFileBytes.toNat
  | .keepFiles => settings.log.keepFiles.toInt

/-- The texts of the file are accepted. -/
def TomlTable.TextsValid (table : TomlTable) : Prop :=
  parseListenAddress ((table.text "server" "listen").getD (ascii "127.0.0.1:7443")) ≠ none ∧
    ((table.bool "tls" "enabled").getD false → (table.text "tls" "certificate").getD [] ≠ [] ∧
      (table.text "tls" "private_key").getD [] ≠ []) ∧
    (table.text "logging" "level").getD (ascii "info") ∈ logLevels ∧
    (table.text "logging" "format").getD (ascii "json") = ascii "json" ∧
    ((table.text "storage" "root").getD []).isEmpty = false

/-- Settings that are returned have the file's integers, which are in their ranges; a file with
another integer is refused. -/
def IntegersKept (table : TomlTable) (result : Except Error ServerSettings) : Prop :=
  (∀ settings, result = .ok settings →
    ∀ f, settings.value f = table.value f ∧ f.InRange (table.value f)) ∧
  ((∃ f : IntSetting, ¬ f.InRange (table.value f)) → ∃ what, result = .error (.fr .eArg what))

private theorem IntSetting.cast_eq_iff {f : IntSetting} {n : Int} : f.cast n = n ↔ f.Fits n := by
  unfold cast Fits
  split
  · omega
  · exact Casts.bmod_eq_self_iff n

private theorem tableSettings_value (table : TomlTable) (f : IntSetting) :
    (tableSettings table).value f = f.cast (table.value f) := by
  cases f with
  | capacityBytes | chunkSize | maxFileBytes => exact Casts.toNat_toUInt64_emod _
  | _ => exact Int64.toInt_toInt32 _

private theorem tableSettings_textsValid {table : TomlTable} :
    (tableSettings table).TextsValid ↔ table.TextsValid := Iff.rfl

private theorem ServerSettings.numbersValid_iff {settings : ServerSettings} :
    settings.NumbersValid ↔
      0 < settings.requestTimeoutSeconds ∧ ∀ f : IntSetting, f.InRange (settings.value f) := by
  unfold NumbersValid
  simp only [Int32.le_iff_toInt_le, UInt64.le_iff_toNat_le]
  have hne {n : UInt64} : n ≠ 0 ↔ 1 ≤ (n.toNat : Int) := by
    rw [ne_eq, ← UInt64.toNat_inj, UInt64.toNat_zero]
    omega
  constructor
  · rintro ⟨hconnections, hworkers, htimeout, hcapacity, hpercent, hhours, hchunk, hgrace,
      hsessions, hbytes, hfiles⟩
    refine ⟨htimeout, fun f => ?_⟩
    cases f with
    | maxConnections => exact hconnections
    | workerThreads => exact hworkers
    | capacityBytes => exact hne.mp hcapacity
    | highWatermarkPercent => exact hpercent
    | uploadSessionHours => exact hhours
    | chunkSize => exact ⟨Int.ofNat_le.mpr hchunk.1, Int.ofNat_le.mpr hchunk.2⟩
    | gcGraceSeconds => exact hgrace
    | maxSessionsPerOwner => exact hsessions
    | maxFileBytes => exact hne.mp hbytes
    | keepFiles => exact hfiles
  · rintro ⟨htimeout, hall⟩
    have hchunk := hall .chunkSize
    exact ⟨hall .maxConnections, hall .workerThreads, htimeout, hne.mpr (hall .capacityBytes),
      hall .highWatermarkPercent, hall .uploadSessionHours,
      ⟨Int.ofNat_le.mp hchunk.1, Int.ofNat_le.mp hchunk.2⟩, hall .gcGraceSeconds,
      hall .maxSessionsPerOwner, hne.mpr (hall .maxFileBytes), hall .keepFiles⟩

private theorem validate_tableSettings {table : TomlTable} :
    validateServerSettings (tableSettings table) = .ok () ↔
      table.TextsValid ∧ ∀ f : IntSetting, f.InRange (f.cast (table.value f)) := by
  have htimeout : 0 < (tableSettings table).requestTimeoutSeconds := by
    change (0 : Int32) < 120
    decide
  rw [validateServerSettings_iff, tableSettings_textsValid, ServerSettings.numbersValid_iff,
    and_iff_right htimeout]
  simp only [tableSettings_value]

/-- A file that is parsed is loaded with its own integers or refused, if and only if no integer
that its type cannot hold is accepted for what the cast makes of it. -/
theorem integersKept_iff {parseFile : Bytes → Except Bytes TomlTable} {path : Bytes}
    {table : TomlTable} (hpath : path ≠ []) (hparse : parseFile path = .ok table) :
    IntegersKept table (loadServerConfig parseFile path) ↔
      (table.TextsValid → (∀ f : IntSetting, f.InRange (f.cast (table.value f))) →
        ∀ f : IntSetting, f.Fits (table.value f)) := by
  have hload : loadServerConfig parseFile path =
      (validateServerSettings (tableSettings table)).map fun _ => tableSettings table := by
    rw [loadServerConfig, if_neg hpath, hparse]
  rw [hload]
  cases hvalid : validateServerSettings (tableSettings table) with
  | error e =>
    obtain ⟨what, rfl⟩ := validateServerSettings_error e hvalid
    refine iff_of_true ⟨nofun, fun _ => ⟨what, rfl⟩⟩ fun htexts hnumbers => ?_
    rw [validate_tableSettings.mpr ⟨htexts, hnumbers⟩] at hvalid
    cases hvalid
  | ok u =>
    obtain ⟨htexts, hnumbers⟩ := validate_tableSettings.mp hvalid
    constructor
    · intro hkept _ _ f
      rw [← IntSetting.cast_eq_iff, ← tableSettings_value]
      exact (hkept.1 _ rfl f).1
    · intro hfits
      have hcast : ∀ f : IntSetting, f.cast (table.value f) = table.value f := fun f =>
        IntSetting.cast_eq_iff.mpr (hfits htexts hnumbers f)
      have hrange : ∀ f : IntSetting, f.InRange (table.value f) := fun f => hcast f ▸ hnumbers f
      refine ⟨fun settings hsettings f => ?_, fun ⟨f, hf⟩ => absurd (hrange f) hf⟩
      cases hsettings
      exact ⟨(tableSettings_value table f).trans (hcast f), hrange f⟩

/-- A file with a root and this limit on the connections. -/
def connectionsTable (maxConnections : Int64) : TomlTable where
  int group key := if (group, key) = ("server", "max_connections") then some maxConnections
    else none
  text group key := if (group, key) = ("storage", "root") then some (ascii "/srv") else none
  bool _ _ := none

theorem integersKept_iff_sample : IntegersKept (connectionsTable 64)
    (loadServerConfig (fun _ => .ok (connectionsTable 64)) (ascii "server.toml")) := by
  refine (integersKept_iff (by decide) rfl).mpr fun _ _ f => ?_
  unfold IntSetting.Fits
  cases f <;> decide +kernel

/-- 2^32 + 64 connections are accepted as 64. -/
theorem connections_folded : ¬ IntegersKept (connectionsTable (2^32 + 64))
    (loadServerConfig (fun _ => .ok (connectionsTable (2^32 + 64))) (ascii "server.toml")) := by
  intro hkept
  have hvalue := (hkept.1 _ rfl .maxConnections).1
  revert hvalue
  decide +kernel

end ForgeRelay
