import LinguaMesh.Lib.Relational

/-!
# The migrations of the local database

The scripts of `migrations/`, statement by statement, each under the name of its
constant, and the schema of each version (`schemaAt`). Of the first five, which never
run on a database that has document tables, the statements that write rows are left
out. An index is kept without the direction of its columns.
-/

namespace LinguaMesh.Storage.Migrations

open Relational

inductive TableName where
  | schemaMetadata | providerProfiles | modelDescriptors | activeModelSelection
  | providerModelSelection | activeProviderSelection | translationHistory
  | translationHistoryPolicy | translationMemoryPolicy | translationMemory
  | documentJobs | documentSegments | documentJobOptions | routingProfiles | usageRecords
  | glossaries | glossaryTerms
  /-- `document_jobs_v7` and the like -/
  | rebuilt (version : Nat) (table : TableName)
  deriving DecidableEq, Repr

inductive ColumnName where
  | singleton | version | id | displayName | baseEndpoint | secretRef | source | modelId | presetId
  | adapterType | enabled | providerId | operationId | createdAt | sourceText | translatedText
  | sourceLocale | targetLocale | cacheKey | identityJson | jobId | state | format | sourceName
  | updatedAt | segmentIndex | kind | lineEnding | glossaryJson | packageBlob | profileId
  | profileJson | routingProfileId | qualityMode | translationPresetJson | userNotes | organization
  | project | region | accountIdentifier | customHeaders | secretCustomHeadersRef | proxyUrl
  | requestTimeoutSecs | connectionTimeoutSecs | streamingIdleTimeoutSecs | trustedCertificatesPem
  | proxyAuthRef | clientCertificateIdentityRef | inputTokens | outputTokens | totalTokens
  | glossaryId | termIndex | sourceTerm | targetTerm | caseSensitive | wholeWord | immutable | domain
  | priority | notes | lastSuccessfulHealthCheck | lastFailureCategory
  deriving DecidableEq, Repr

inductive IndexName where
  | translationHistoryCreatedAt | translationMemoryCreatedAtIdx | documentJobsUpdatedAtIdx
  | documentSegmentsJobIdx | routingProfilesUpdatedAtIdx | documentJobOptionsRoutingProfileIdx
  | usageRecordsCreatedAt | glossaryTermsByLibrary
  deriving DecidableEq, Repr

abbrev Definition := TableDef TableName ColumnName

abbrev LocalSchema := Schema TableName ColumnName IndexName

abbrev LocalDatabase := Database TableName ColumnName IndexName

abbrev Script := List (Statement TableName ColumnName IndexName)

/-! ## Columns -/

section Columns

variable (name : ColumnName)

/-- `name TEXT` -/
def text : Column TableName ColumnName := ⟨name, .text, false, none, .value .null, none⟩

/-- `name INTEGER` -/
def integer : Column TableName ColumnName := ⟨name, .integer, false, none, .value .null, none⟩

/-- `name BLOB` -/
def blob : Column TableName ColumnName := ⟨name, .blob, false, none, .value .null, none⟩

/-- `name INTEGER NOT NULL DEFAULT (unixepoch())` -/
def clock : Column TableName ColumnName := ⟨name, .integer, true, none, .now, none⟩

end Columns

section Clauses

variable (column : Column TableName ColumnName)

/-- `NOT NULL` -/
def required : Column TableName ColumnName := { column with notNull := true }

/-- `DEFAULT v` -/
def defaulting (v : Value) : Column TableName ColumnName := { column with default := .value v }

/-- `CHECK (column IN (values))` -/
def among (values : List Value) : Column TableName ColumnName :=
  { column with check := some (.oneOf values) }

/-- `REFERENCES parent(key)` -/
def referring (parent : TableName) (key : ColumnName) : Column TableName ColumnName :=
  { column with references := some ⟨parent, key, false⟩ }

/-- `REFERENCES parent(key) ON DELETE CASCADE` -/
def cascading (parent : TableName) (key : ColumnName) : Column TableName ColumnName :=
  { column with references := some ⟨parent, key, true⟩ }

end Clauses

def texts (values : List String) : List Value := values.map fun s => .text s.toList

/-- `singleton INTEGER PRIMARY KEY CHECK (singleton = 1)` -/
def single : Column TableName ColumnName := among (integer .singleton) [.integer 1]

def flags : List Value := [.integer 0, .integer 1]

/-! ## Before the document tables -/

def initialMigration : Script := [
  .createTable true .schemaMetadata ⟨[single, required (integer .version)], [.singleton]⟩,
  .createTable true .providerProfiles
    ⟨[text .id, required (text .displayName), required (text .baseEndpoint), text .secretRef], [.id]⟩,
  .createTable true .modelDescriptors
    ⟨[text .id, required (text .displayName),
      among (required (text .source)) (texts ["discovered", "catalog", "manual"])], [.id]⟩,
  .createTable true .activeModelSelection
    ⟨[single, referring (required (text .modelId)) .modelDescriptors .id], [.singleton]⟩]

def providerProfileStateMigration : Script := [
  .addColumn .providerProfiles
    (defaulting (required (text .presetId)) (.text "generic-openai-compatible".toList)),
  .addColumn .providerProfiles
    (defaulting (required (text .adapterType)) (.text "openai_chat_completions".toList)),
  .addColumn .providerProfiles
    (among (defaulting (required (integer .enabled)) (.integer 1)) flags),
  .createTable true .providerModelSelection
    ⟨[cascading (text .providerId) .providerProfiles .id, required (text .modelId)], [.providerId]⟩,
  .createTable true .activeProviderSelection
    ⟨[single, cascading (required (text .providerId)) .providerProfiles .id], [.singleton]⟩]

def translationHistoryMigration : Script := [
  .createTable true .translationHistory
    ⟨[text .operationId, clock .createdAt, required (text .sourceText),
      required (text .translatedText), text .sourceLocale, required (text .targetLocale),
      required (text .modelId)], [.operationId]⟩,
  .createIndex true ⟨.translationHistoryCreatedAt, .translationHistory, [.createdAt, .operationId]⟩]

def translationHistoryPolicyMigration : Script := [
  .createTable true .translationHistoryPolicy
    ⟨[single, among (required (integer .enabled)) flags], [.singleton]⟩]

def translationMemoryMigration : Script := [
  .createTable true .translationMemoryPolicy
    ⟨[single, among (required (integer .enabled)) flags], [.singleton]⟩,
  .createTable true .translationMemory
    ⟨[text .cacheKey, clock .createdAt, required (text .sourceText), required (text .translatedText),
      text .sourceLocale, required (text .targetLocale), required (text .modelId),
      required (text .identityJson)], [.cacheKey]⟩,
  .createIndex true ⟨.translationMemoryCreatedAtIdx, .translationMemory, [.createdAt, .cacheKey]⟩]

/-! ## Document tables -/

/-- The columns of `document_jobs` that come before its clock columns. -/
def jobColumns (states formats : List String) : List (Column TableName ColumnName) :=
  [text .jobId, among (required (text .state)) (texts states),
    among (required (text .format)) (texts formats), required (text .sourceName)]

/-- `document_jobs`, with a `package_blob` or without. -/
def jobsTable (states formats : List String) (package : Bool) : Definition :=
  ⟨jobColumns states formats ++ (if package then [blob .packageBlob] else []) ++
    [clock .createdAt, clock .updatedAt], [.jobId]⟩

def segmentsTable (jobs : TableName) : Definition :=
  ⟨[cascading (required (text .jobId)) jobs .jobId,
    { required (integer .segmentIndex) with check := some .atLeastZero },
    among (required (text .kind)) (texts ["prose", "verbatim"]), required (text .sourceText),
    text .translatedText,
    among (required (text .lineEnding)) [.text [], .text ['\n'], .text ['\r', '\n'], .text ['\r']]],
    [.jobId, .segmentIndex]⟩

def optionsTable (jobs : TableName) : Definition :=
  ⟨[cascading (text .jobId) jobs .jobId, text .sourceLocale, required (text .targetLocale),
    required (text .modelId), required (text .providerId), text .glossaryJson, clock .updatedAt],
    [.jobId]⟩

def documentIndexes : Script := [
  .createIndex true ⟨.documentJobsUpdatedAtIdx, .documentJobs, [.updatedAt, .jobId]⟩,
  .createIndex true ⟨.documentSegmentsJobIdx, .documentSegments, [.jobId, .segmentIndex]⟩]

def documentJobsMigration : Script := [
  .createTable true .documentJobs (jobsTable ["pending", "running", "completed", "cancelled", "failed"]
    ["txt", "markdown"] false),
  .createTable true .documentSegments (segmentsTable .documentJobs)] ++ documentIndexes

def documentJobOptionsMigration : Script := [
  .createTable true .documentJobOptions (optionsTable .documentJobs)]

/-- A new table under a name of the version, and the columns of the old one in it. -/
def copyTable (version : Nat) (table : TableName) (definition : Definition)
    (columns : List ColumnName) : Script := [
  .createTable false (.rebuilt version table) definition,
  .insertSelect (.rebuilt version table) columns table columns]

def copySegments (version : Nat) : Script :=
  copyTable version .documentSegments (segmentsTable (.rebuilt version .documentJobs))
    [.jobId, .segmentIndex, .kind, .sourceText, .translatedText, .lineEnding]

def copyOptions (version : Nat) : Script :=
  copyTable version .documentJobOptions (optionsTable (.rebuilt version .documentJobs))
    [.jobId, .sourceLocale, .targetLocale, .modelId, .providerId, .glossaryJson, .updatedAt]

def states : List String := ["pending", "running", "paused", "completed", "cancelled", "failed"]

def documentJobPauseMigration : Script :=
  copyTable 7 .documentJobs (jobsTable states ["txt", "markdown"] false)
    [.jobId, .state, .format, .sourceName, .createdAt, .updatedAt] ++
  copySegments 7 ++ [
  .dropTable .documentSegments,
  .dropTable .documentJobs,
  .renameTable (.rebuilt 7 .documentJobs) .documentJobs,
  .renameTable (.rebuilt 7 .documentSegments) .documentSegments] ++ documentIndexes

/-- The rebuild of the three tables; `columns` are those of `document_jobs` that are copied. -/
def rebuildDocuments (version : Nat) (jobs : Definition) (columns : List ColumnName) : Script :=
  copyTable version .documentJobs jobs columns ++ copySegments version ++ copyOptions version ++ [
  .dropTable .documentJobOptions,
  .dropTable .documentSegments,
  .dropTable .documentJobs,
  .renameTable (.rebuilt version .documentJobs) .documentJobs,
  .renameTable (.rebuilt version .documentSegments) .documentSegments,
  .renameTable (.rebuilt version .documentJobOptions) .documentJobOptions] ++ documentIndexes

def documentFormatsMigration : Script :=
  rebuildDocuments 9
    (jobsTable states ["txt", "markdown", "srt", "webvtt", "csv", "html", "json"] false)
    [.jobId, .state, .format, .sourceName, .createdAt, .updatedAt]

def documentPackagesMigration : Script :=
  rebuildDocuments 10
    (jobsTable states ["txt", "markdown", "srt", "webvtt", "csv", "html", "json", "docx"] true)
    [.jobId, .state, .format, .sourceName, .createdAt, .updatedAt]

def documentPptxMigration : Script :=
  rebuildDocuments 11
    (jobsTable states ["txt", "markdown", "srt", "webvtt", "csv", "html", "json", "docx", "pptx"] true)
    [.jobId, .state, .format, .sourceName, .packageBlob, .createdAt, .updatedAt]

def documentXlsxMigration : Script :=
  rebuildDocuments 12
    (jobsTable states
      ["txt", "markdown", "srt", "webvtt", "csv", "html", "json", "docx", "pptx", "xlsx"] true)
    [.jobId, .state, .format, .sourceName, .packageBlob, .createdAt, .updatedAt]

def documentEpubMigration : Script :=
  rebuildDocuments 13
    (jobsTable states
      ["txt", "markdown", "srt", "webvtt", "csv", "html", "json", "docx", "pptx", "xlsx", "epub"] true)
    [.jobId, .state, .format, .sourceName, .packageBlob, .createdAt, .updatedAt]

def documentPdfMigration : Script :=
  rebuildDocuments 14
    (jobsTable states
      ["txt", "markdown", "srt", "webvtt", "csv", "html", "json", "docx", "pptx", "xlsx", "epub", "pdf"]
      true)
    [.jobId, .state, .format, .sourceName, .packageBlob, .createdAt, .updatedAt]

def documentRoutingProfileMigration : Script := [
  .addColumn .documentJobOptions (text .routingProfileId),
  .createIndex true
    ⟨.documentJobOptionsRoutingProfileIdx, .documentJobOptions, [.routingProfileId]⟩]

def documentQualityModeMigration : Script := [
  .addColumn .documentJobOptions
    (defaulting (required (text .qualityMode)) (.text "balanced".toList))]

def documentTranslationPresetMigration : Script := [
  .addColumn .documentJobOptions (text .translationPresetJson)]

/-! ## Other tables -/

def routingProfilesMigration : Script := [
  .createTable false .routingProfiles
    ⟨[text .profileId, required (text .profileJson), clock .createdAt, clock .updatedAt],
      [.profileId]⟩,
  .createIndex false ⟨.routingProfilesUpdatedAtIdx, .routingProfiles, [.updatedAt, .profileId]⟩]

def providerProfileNotesMigration : Script := [.addColumn .providerProfiles (text .userNotes)]

def providerProfileOrganizationMigration : Script := [.addColumn .providerProfiles (text .organization)]

def providerProfileProjectMigration : Script := [.addColumn .providerProfiles (text .project)]

def providerProfileRegionAccountMigration : Script := [
  .addColumn .providerProfiles (text .region),
  .addColumn .providerProfiles (text .accountIdentifier)]

def providerProfileCustomHeadersMigration : Script := [.addColumn .providerProfiles (text .customHeaders)]

def providerProfileSecretCustomHeadersMigration : Script := [
  .addColumn .providerProfiles (text .secretCustomHeadersRef)]

def providerProfileProxyMigration : Script := [.addColumn .providerProfiles (text .proxyUrl)]

def providerProfileTimeoutMigration : Script := [
  .addColumn .providerProfiles (defaulting (required (integer .requestTimeoutSecs)) (.integer 30))]

def providerProfileConnectionTimeoutMigration : Script := [
  .addColumn .providerProfiles (defaulting (required (integer .connectionTimeoutSecs)) (.integer 10))]

def providerProfileStreamingIdleTimeoutMigration : Script := [
  .addColumn .providerProfiles
    (defaulting (required (integer .streamingIdleTimeoutSecs)) (.integer 60))]

def providerProfileTrustedCertificatesMigration : Script := [
  .addColumn .providerProfiles (text .trustedCertificatesPem)]

def providerProfileProxyAuthMigration : Script := [.addColumn .providerProfiles (text .proxyAuthRef)]

def providerProfileClientCertificateIdentityMigration : Script := [
  .addColumn .providerProfiles (text .clientCertificateIdentityRef)]

def usageRecordsMigration : Script := [
  .createTable true .usageRecords
    ⟨[text .operationId, clock .createdAt, text .providerId, required (text .modelId),
      among (required (text .source)) (texts ["provider_reported", "locally_estimated", "unknown"]),
      integer .inputTokens, integer .outputTokens, integer .totalTokens], [.operationId]⟩,
  .createIndex true ⟨.usageRecordsCreatedAt, .usageRecords, [.createdAt, .operationId]⟩]

def glossaryLibrariesMigration : Script := [
  .createTable true .glossaries
    ⟨[text .glossaryId, clock .createdAt, clock .updatedAt], [.glossaryId]⟩,
  .createTable true .glossaryTerms
    ⟨[cascading (required (text .glossaryId)) .glossaries .glossaryId, required (integer .termIndex),
      required (text .sourceTerm), required (text .targetTerm), text .sourceLocale, text .targetLocale,
      required (integer .caseSensitive), required (integer .wholeWord), required (integer .immutable),
      text .domain, required (integer .priority), text .notes, required (integer .enabled)],
      [.glossaryId, .termIndex]⟩,
  .createIndex true ⟨.glossaryTermsByLibrary, .glossaryTerms, [.glossaryId, .termIndex]⟩]

def providerProfileHealthMigration : Script := [
  .addColumn .providerProfiles (integer .lastSuccessfulHealthCheck),
  .addColumn .providerProfiles (text .lastFailureCategory)]

/-- `MIGRATIONS` -/
def migrations : List (Nat × Script) := [
  (1, initialMigration),
  (2, providerProfileStateMigration),
  (3, translationHistoryMigration),
  (4, translationHistoryPolicyMigration),
  (5, translationMemoryMigration),
  (6, documentJobsMigration),
  (7, documentJobPauseMigration),
  (8, documentJobOptionsMigration),
  (9, documentFormatsMigration),
  (10, documentPackagesMigration),
  (11, documentPptxMigration),
  (12, documentXlsxMigration),
  (13, documentEpubMigration),
  (14, documentPdfMigration),
  (15, routingProfilesMigration),
  (16, documentRoutingProfileMigration),
  (17, documentQualityModeMigration),
  (18, documentTranslationPresetMigration),
  (19, providerProfileNotesMigration),
  (20, providerProfileOrganizationMigration),
  (21, providerProfileProjectMigration),
  (22, providerProfileRegionAccountMigration),
  (23, providerProfileCustomHeadersMigration),
  (24, providerProfileSecretCustomHeadersMigration),
  (25, providerProfileProxyMigration),
  (26, providerProfileTimeoutMigration),
  (27, providerProfileConnectionTimeoutMigration),
  (28, providerProfileStreamingIdleTimeoutMigration),
  (29, providerProfileTrustedCertificatesMigration),
  (30, providerProfileProxyAuthMigration),
  (31, providerProfileClientCertificateIdentityMigration),
  (32, usageRecordsMigration),
  (33, glossaryLibrariesMigration),
  (34, providerProfileHealthMigration)]

def latestSchemaVersion : Nat := 34

/-- The schema that the migrations up to a version make. -/
def schemaAt (version : Nat) : LocalSchema :=
  match ((migrations.filter (·.1 ≤ version)).flatMap (·.2)).foldlM Statement.schema Schema.empty with
  | .ok σ => σ
  | .error _ => Schema.empty

def documentTables : List TableName := [.documentJobs, .documentSegments, .documentJobOptions]

end LinguaMesh.Storage.Migrations
