import LinguaMesh.Domain.Misread
import LinguaMesh.Domain.Chunks
import LinguaMesh.Provider.Text
import LinguaMesh.Engine.Translate
import LinguaMesh.Document.PdfLiterals
import LinguaMesh.Document.PdfLength
import LinguaMesh.Document.Markup
import LinguaMesh.Document.Localize
import LinguaMesh.Document.CsvLocalize
import LinguaMesh.Document.SrtGrammar
import LinguaMesh.Storage.Updates
import LinguaMesh.Ffi.Shutdown
import LinguaMesh.Ffi.Events
import LinguaMesh.Ffi.Requests
import LinguaMesh.Ffi.LeaseOrder
import LinguaMesh.Document.Package
import LinguaMesh.Application.Adapters
import LinguaMesh.Application.Answers
import LinguaMesh.Domain.GlossaryCsv
import LinguaMesh.Domain.Routing
import LinguaMesh.Domain.RoutingChoice
import LinguaMesh.Ffi.Buffers
import LinguaMesh.Ffi.Delivery
import LinguaMesh.Ffi.Occupancy
import LinguaMesh.Storage.Trimming
import LinguaMesh.Storage.MemoryHits
import LinguaMesh.Engine.ChunkUsage
import LinguaMesh.Provider.Headers
import LinguaMesh.Domain.GlossaryOrder
import LinguaMesh.Provider.ChunkStream
import LinguaMesh.Document.Identity
import LinguaMesh.Domain.TbxImport
import LinguaMesh.Storage.JobRecords
import LinguaMesh.Storage.Migrate
import LinguaMesh.Document.PdfEscape
import LinguaMesh.Document.CueWarnings
import LinguaMesh.Document.Fences
import LinguaMesh.Domain.Tails
import LinguaMesh.Storage.Imported
import LinguaMesh.Domain.RoutingExchange
import LinguaMesh.Provider.Ollama
import LinguaMesh.Provider.Gemini
import LinguaMesh.Provider.Prompt
import LinguaMesh.Document.EpubExport
import LinguaMesh.Document.XlsxSelection
import LinguaMesh.Ffi.SwiftEngine
import LinguaMesh.Ffi.KotlinEngine
import LinguaMesh.Storage.GlossaryLibrary
import LinguaMesh.Storage.RoutingProfiles
import LinguaMesh.Lib.Ownership
