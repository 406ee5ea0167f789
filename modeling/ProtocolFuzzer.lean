import ProtocolFuzzer.Math.Bytes
import ProtocolFuzzer.Math.Base128
import ProtocolFuzzer.Math.Blocks
import ProtocolFuzzer.Math.BoundedLog
import ProtocolFuzzer.Math.Chunks
import ProtocolFuzzer.Math.Deviations
import ProtocolFuzzer.Math.Entropy
import ProtocolFuzzer.Math.FirstBy
import ProtocolFuzzer.Math.Groups
import ProtocolFuzzer.Math.HitMap
import ProtocolFuzzer.Math.Indels
import ProtocolFuzzer.Math.LastMax
import ProtocolFuzzer.Math.Overwrites
import ProtocolFuzzer.Math.Potential
import ProtocolFuzzer.Math.Prefixes
import ProtocolFuzzer.Math.PrefixCodes
import ProtocolFuzzer.Math.Reader
import ProtocolFuzzer.Math.Runs
import ProtocolFuzzer.Math.Tally
import ProtocolFuzzer.Math.Toggle
import ProtocolFuzzer.Platform.Checked
import ProtocolFuzzer.Platform.DefaultHasher
import ProtocolFuzzer.Platform.Draws
import ProtocolFuzzer.Platform.SeedBuffer
import ProtocolFuzzer.Platform.Text
import ProtocolFuzzer.Protocols.Common
import ProtocolFuzzer.Protocols.Mutations
import ProtocolFuzzer.Protocols.Edits
import ProtocolFuzzer.Protocols.EditRuns
import ProtocolFuzzer.Protocols.Growth
import ProtocolFuzzer.Protocols.DNS.Fuzzer
import ProtocolFuzzer.Protocols.DNS.Compression
import ProtocolFuzzer.Protocols.DNS.Patterns
import ProtocolFuzzer.Protocols.DNS.Queries
import ProtocolFuzzer.Protocols.DNS.Generation
import ProtocolFuzzer.Protocols.DNS.GrammarMutations
import ProtocolFuzzer.Protocols.MQTT.Fuzzer
import ProtocolFuzzer.Protocols.MQTT.Validation
import ProtocolFuzzer.Protocols.MQTT.Layout
import ProtocolFuzzer.Protocols.MQTT.Generation
import ProtocolFuzzer.Protocols.MQTT.FieldRules
import ProtocolFuzzer.Protocols.MQTT.Patterns
import ProtocolFuzzer.Protocols.MQTT.Streams
import ProtocolFuzzer.Protocols.MQTT.Framing
import ProtocolFuzzer.Protocols.MQTT.Rejection
import ProtocolFuzzer.Protocols.MQTT.Mutation
import ProtocolFuzzer.Protocols.MQTT.GrammarMutations
import ProtocolFuzzer.Coverage.Execution
import ProtocolFuzzer.Coverage.Windows
import ProtocolFuzzer.Coverage.Edge
import ProtocolFuzzer.Coverage.MostCommonByte
import ProtocolFuzzer.Coverage.Feature
import ProtocolFuzzer.Coverage.Composite
import ProtocolFuzzer.Coverage.Safety
import ProtocolFuzzer.Coverage.Repetition
import ProtocolFuzzer.Coverage.Accounting
import ProtocolFuzzer.Coverage.Export
import ProtocolFuzzer.Coverage.FeatureNames
import ProtocolFuzzer.Coverage.Snapshots
import ProtocolFuzzer.Coverage.Novelty
import ProtocolFuzzer.Coverage.Report
import ProtocolFuzzer.Coverage.ReportAccounting
import ProtocolFuzzer.Utils.PacketAnalyzer
import ProtocolFuzzer.Protocols.MQTT.RemainingLength
import ProtocolFuzzer.Protocols.MQTT.ConnectReaders
import ProtocolFuzzer.Protocols.MQTT.TopicFilters
import ProtocolFuzzer.Utils.Detection
import ProtocolFuzzer.Utils.RepeatedBytes
import ProtocolFuzzer.Utils.PacketAnalysis
import ProtocolFuzzer.Utils.ExtractStrings
import ProtocolFuzzer.Utils.Hexdump
import ProtocolFuzzer.Utils.Statistics
import ProtocolFuzzer.Utils.RateLimiter
import ProtocolFuzzer.Fuzzer.CrashDetector
import ProtocolFuzzer.Fuzzer.CrashAccounting
import ProtocolFuzzer.Fuzzer.NewCrashes
import ProtocolFuzzer.Fuzzer.Campaign
import ProtocolFuzzer.Fuzzer.Execution
import ProtocolFuzzer.Fuzzer.CampaignSafety
import ProtocolFuzzer.Fuzzer.CampaignAccounting
import ProtocolFuzzer.Fuzzer.CampaignTrace
import ProtocolFuzzer.Fuzzer.TargetOutcomes
import ProtocolFuzzer.Fuzzer.CampaignReach
import ProtocolFuzzer.Fuzzer.CampaignFailure
import ProtocolFuzzer.Fuzzer.Results
import ProtocolFuzzer.Fuzzer.NetworkExecutor
import ProtocolFuzzer.Fuzzer.ParserValidation
import ProtocolFuzzer.Fuzzer.ErrorUniqueness
import ProtocolFuzzer.Fuzzer.PatternReach
import ProtocolFuzzer.Fuzzer.TestCases
import ProtocolFuzzer.Fuzzer.ProtocolMutator
import ProtocolFuzzer.Fuzzer.StructuralMutation
import ProtocolFuzzer.Fuzzer.MutationReports
import ProtocolFuzzer.Fuzzer.MutationRuns
