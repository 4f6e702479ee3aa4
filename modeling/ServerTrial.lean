import ServerTrial.Main
import ServerTrial.Protocol.Names
import ServerTrial.Proofs.Repair
import ServerTrial.Proofs.Utf8
import ServerTrial.Proofs.Verdict
import ServerTrial.Proofs.Fits
import ServerTrial.Proofs.PercentEncoding
import ServerTrial.Proofs.Respelling
import ServerTrial.Proofs.FloatBits
import ServerTrial.Proofs.Rounding
import ServerTrial.Proofs.ShortestDecimal
import ServerTrial.Proofs.NumberText
import ServerTrial.Proofs.StringText
import ServerTrial.Proofs.Readable
import ServerTrial.Proofs.JsonText
import ServerTrial.Proofs.Content
import ServerTrial.Proofs.Decoded
import ServerTrial.Proofs.Settled
import ServerTrial.Proofs.Recheck
import ServerTrial.Proofs.Refusals
import ServerTrial.Proofs.RefusedPlaces
import ServerTrial.Proofs.Completeness
import ServerTrial.Proofs.Symbols
import ServerTrial.Proofs.Replay
import ServerTrial.Proofs.Idempotence
import ServerTrial.Proofs.Listings
import ServerTrial.Proofs.Results
import ServerTrial.Proofs.Malformed
import ServerTrial.Proofs.Confinement
import ServerTrial.Proofs.Payload
import ServerTrial.Proofs.Compiler
import ServerTrial.Proofs.SetupChecks
import ServerTrial.Proofs.Supervision
import ServerTrial.Proofs.Tally
import ServerTrial.Proofs.Preview
import ServerTrial.Proofs.TomlLines
import ServerTrial.Proofs.TomlTables
import ServerTrial.Proofs.TomlRoundTrip
import ServerTrial.Proofs.Skeletons
import ServerTrial.Proofs.Breaks
import ServerTrial.Proofs.DeclaredInputs
import ServerTrial.Proofs.Escapes
import ServerTrial.Proofs.Removal
import ServerTrial.Proofs.Leftovers
import ServerTrial.Proofs.ScriptValues
import ServerTrial.Proofs.Occupancy
import ServerTrial.Proofs.LongBrackets
import ServerTrial.Proofs.DistinctKeys
import ServerTrial.Proofs.SameData
import ServerTrial.Proofs.Findings
import ServerTrial.Proofs.ReportLines
import ServerTrial.Proofs.ReportedPlaces
import ServerTrial.Proofs.Containment
import ServerTrial.Proofs.Quotation
import ServerTrial.Proofs.PathText
import ServerTrial.Proofs.SourcePlaces
import ServerTrial.Proofs.Spellings
import ServerTrial.Proofs.Isolation
import ServerTrial.Proofs.FileUris
import ServerTrial.Proofs.WrittenFiles
import ServerTrial.Proofs.SentParameters
import ServerTrial.Proofs.CommandPaths
import ServerTrial.Proofs.TypedInputs
import ServerTrial.Proofs.SingleQuotes
import ServerTrial.Proofs.Extensions
import ServerTrial.Proofs.Merging
import ServerTrial.Proofs.SharedTables
import ServerTrial.Proofs.TomlContent
import ServerTrial.Proofs.SavedSettings
import ServerTrial.Proofs.FailedSaves
import ServerTrial.Proofs.ExpectedShapes
import ServerTrial.Proofs.LocalNames
import ServerTrial.Proofs.ResolvedPlaces
