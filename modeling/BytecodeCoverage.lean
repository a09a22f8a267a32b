import BytecodeCoverage.Code.Assembler
import BytecodeCoverage.Coverage.Decoding
import BytecodeCoverage.Coverage.Merge
import BytecodeCoverage.Machine.Run
import BytecodeCoverage.Options
import BytecodeCoverage.Probe.Code
import BytecodeCoverage.Proofs.Bytes.Accesses
import BytecodeCoverage.Proofs.Bytes.Readings
import BytecodeCoverage.Proofs.Bytes.Varint
import BytecodeCoverage.Proofs.Class.Offsets
import BytecodeCoverage.Proofs.Code.Assembled
import BytecodeCoverage.Proofs.Coverage.Decoded
import BytecodeCoverage.Proofs.Coverage.MergeLaws
import BytecodeCoverage.Proofs.Coverage.Truncation
import BytecodeCoverage.Proofs.Machine.Stopping
import BytecodeCoverage.Proofs.Noise.Assertions
import BytecodeCoverage.Proofs.Noise.Guards
import BytecodeCoverage.Proofs.Noise.Resources
import BytecodeCoverage.Proofs.Noise.StringDispatch
import BytecodeCoverage.Proofs.Options
import BytecodeCoverage.Proofs.Probe.Agreement
import BytecodeCoverage.Proofs.Probe.Erasing
import BytecodeCoverage.Proofs.Probe.Wrapping
import BytecodeCoverage.Proofs.Registry.Shared
import BytecodeCoverage.Proofs.Scan.Fates
import BytecodeCoverage.Proofs.Scan.Lines
import BytecodeCoverage.Proofs.Session.Consistent
import BytecodeCoverage.Proofs.Session.Instructions
import BytecodeCoverage.Proofs.Session.Limits
import BytecodeCoverage.Proofs.Session.Merged
import BytecodeCoverage.Proofs.Session.Outcome
import BytecodeCoverage.Proofs.Session.Refusal
import BytecodeCoverage.Proofs.Session.Reported
import BytecodeCoverage.Proofs.Session.Respelled
import BytecodeCoverage.Proofs.Session.Rewriting
import BytecodeCoverage.Proofs.Session.Room
import BytecodeCoverage.Proofs.Session.Slots
import BytecodeCoverage.Proofs.Session.Tests
import BytecodeCoverage.Proofs.Session.Totals
import BytecodeCoverage.Proofs.SourceMap.Listed
import BytecodeCoverage.Proofs.SourceMap.Origin
import BytecodeCoverage.Proofs.SourceMap.RoundTrip
import BytecodeCoverage.Scan.Pass
import BytecodeCoverage.Session.Instrument
import BytecodeCoverage.SourceMap.Parser
