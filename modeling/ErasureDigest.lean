import ErasureDigest.Binary
import ErasureDigest.Main
import ErasureDigest.Proofs.Stream.Delivery
import ErasureDigest.Proofs.Digest.Collection
import ErasureDigest.Proofs.Hashing.Serial
import ErasureDigest.Proofs.Hashing.Hasher
import ErasureDigest.Proofs.Hashing.History
import ErasureDigest.Proofs.Hashing.Feed
import ErasureDigest.Proofs.Pool.Progress
import ErasureDigest.Proofs.Pool.Ledger
import ErasureDigest.Proofs.Pool.Supply
import ErasureDigest.Proofs.Pool.Account
import ErasureDigest.Proofs.Pool.Results
import ErasureDigest.Proofs.Pool.Agreement
import ErasureDigest.Proofs.Coding.Field
import ErasureDigest.Proofs.Coding.Interpolation
import ErasureDigest.Proofs.Coding.Recovery
import ErasureDigest.Proofs.Coding.Library
import ErasureDigest.Proofs.Hashing.Content
import ErasureDigest.Proofs.Pool.Calls
import ErasureDigest.Proofs.Pool.Liveness
import ErasureDigest.Proofs.Digest.Binding
import ErasureDigest.Proofs.Digest.Strings
import ErasureDigest.Proofs.Digest.Exchange
import ErasureDigest.Proofs.Digest.Damage
import ErasureDigest.Proofs.Stream.Stretches
import ErasureDigest.Proofs.Digest.Pauses
import ErasureDigest.Proofs.Digest.Parity
import ErasureDigest.Proofs.Coding.Encoding
import ErasureDigest.Proofs.Command.Line
import ErasureDigest.Proofs.Settings.Layers
import ErasureDigest.Proofs.Command.Words
import ErasureDigest.Proofs.Command.Hash
import ErasureDigest.Proofs.Pool.Filings
import ErasureDigest.Proofs.Stream.Script
import ErasureDigest.Proofs.Hashing.Outcomes
import ErasureDigest.Proofs.Digest.Binary
import ErasureDigest.Proofs.Digest.SegmentCount
import ErasureDigest.Proofs.Json.Grammar
import ErasureDigest.Proofs.Json.Tokens
import ErasureDigest.Proofs.Json.Skipping
import ErasureDigest.Proofs.Digest.HexText
import ErasureDigest.Proofs.Json.Reading
import ErasureDigest.Proofs.Json.Values
import ErasureDigest.Proofs.Command.Report
import ErasureDigest.Proofs.FileSystem.Growth
import ErasureDigest.Proofs.FileSystem.Writing
import ErasureDigest.Proofs.Settings.Text
import ErasureDigest.Proofs.Settings.Saving
import ErasureDigest.Proofs.Command.Init
import ErasureDigest.Proofs.Command.Show
