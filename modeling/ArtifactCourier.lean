import ArtifactCourier.Text.Blank
import ArtifactCourier.Text.CommaList
import ArtifactCourier.Text.Raw
import ArtifactCourier.Bytes
import ArtifactCourier.Defaults
import ArtifactCourier.Path
import ArtifactCourier.Failure
import ArtifactCourier.Log
import ArtifactCourier.CommandLine.Options
import ArtifactCourier.Config
import ArtifactCourier.Candidate
import ArtifactCourier.Store.Parts
import ArtifactCourier.CommandLine.Switch
import ArtifactCourier.CommandLine.Refusal
import ArtifactCourier.CommandLine.Help
import ArtifactCourier.CommandLine.Parser
import ArtifactCourier.Yaml.Lexer
import ArtifactCourier.Yaml.Node
import ArtifactCourier.Yaml.Resolution
import ArtifactCourier.Yaml.Printer
import ArtifactCourier.Config.Yaml
import ArtifactCourier.FileSystem.Content
import ArtifactCourier.FileSystem.Operations
import ArtifactCourier.Checksum.Crc32
import ArtifactCourier.Deflate.Token
import ArtifactCourier.Deflate.Huffman
import ArtifactCourier.Deflate.Matches
import ArtifactCourier.Gzip
import ArtifactCourier.Tar.Archive
import ArtifactCourier.Compression
import ArtifactCourier.FileSystem.Edit
import ArtifactCourier.Session
import ArtifactCourier.Store.Request
import ArtifactCourier.Store.Exchange
import ArtifactCourier.Store.Uploader
import ArtifactCourier.Store.Service
import ArtifactCourier.Store.Rehearsal
import ArtifactCourier.Store.Receiver
import ArtifactCourier.Scratch
import ArtifactCourier.Walk
import ArtifactCourier.Config.Load
import ArtifactCourier.Environment
import ArtifactCourier.Region
import ArtifactCourier.Region.ConfigFile
import ArtifactCourier.Region.Selection
import ArtifactCourier.FileSystem.Fresh
import ArtifactCourier.Program
import ArtifactCourier.Main
import ArtifactCourier.Proofs.Perform
import ArtifactCourier.Proofs.Configuration.Fields
import ArtifactCourier.Proofs.Configuration.EmptyPrefix
import ArtifactCourier.Proofs.Store.Handover
import ArtifactCourier.Proofs.Walk.FailFast
import ArtifactCourier.Proofs.FileSystem.Follow
import ArtifactCourier.Proofs.FileSystem.Sound
import ArtifactCourier.Proofs.FileSystem.Link
import ArtifactCourier.Proofs.Path
import ArtifactCourier.Proofs.Compression
import ArtifactCourier.Proofs.Walk.Uploads
import ArtifactCourier.Proofs.Walk.LeavesDisk
import ArtifactCourier.Proofs.Store.Conduct
import ArtifactCourier.Proofs.Store.Contract
import ArtifactCourier.Proofs.Store.Dialogue
import ArtifactCourier.Proofs.Store.Discipline
import ArtifactCourier.Proofs.Store.Share
import ArtifactCourier.Proofs.Store.Concurrent
import ArtifactCourier.Proofs.FileSystem.Changes
import ArtifactCourier.Proofs.FileSystem.ScratchContents
import ArtifactCourier.Proofs.Walk.Shelved
import ArtifactCourier.Proofs.Walk.Tally
import ArtifactCourier.Proofs.FileSystem.Reordered
import ArtifactCourier.Proofs.Walk.OrderIndependent
import ArtifactCourier.Proofs.Bytes
import ArtifactCourier.Proofs.Deflate.Bits
import ArtifactCourier.Proofs.Deflate.Blocks
import ArtifactCourier.Proofs.Deflate.RoundTrip
import ArtifactCourier.Proofs.Gzip
import ArtifactCourier.Proofs.Tar.Fields
import ArtifactCourier.Proofs.Tar.Members
import ArtifactCourier.Proofs.Walk.Published
import ArtifactCourier.Proofs.Walk.Rerun
import ArtifactCourier.Proofs.FileSystem.Rewrite
import ArtifactCourier.Proofs.Yaml.Scalars
import ArtifactCourier.Proofs.Yaml.Literal
import ArtifactCourier.Proofs.Yaml.Printed
import ArtifactCourier.Proofs.Yaml.Tokens
import ArtifactCourier.Proofs.Yaml.Tree
import ArtifactCourier.Proofs.Configuration.RoundTrip
import ArtifactCourier.Proofs.Configuration.Layers
import ArtifactCourier.Proofs.Checksum.Crc32
import ArtifactCourier.Proofs.FileSystem.Apart
import ArtifactCourier.Proofs.Gzip.Writer
import ArtifactCourier.Proofs.Compression.GzipCopy
import ArtifactCourier.Proofs.Tar.Stream
import ArtifactCourier.Proofs.Compression.TarGzCopy
import ArtifactCourier.Proofs.Text.Utf8
import ArtifactCourier.Proofs.Tar.LongNames
import ArtifactCourier.Proofs.Compression.InScratch
import ArtifactCourier.Proofs.Walk.Succeeds
import ArtifactCourier.Proofs.Walk.Completes
import ArtifactCourier.Proofs.Store.Ranges
import ArtifactCourier.Proofs.Store.Limits
import ArtifactCourier.Proofs.FileSystem.BaseName
import ArtifactCourier.Proofs.Tar.PathNames
import ArtifactCourier.Proofs.Compression.SoleMember
import ArtifactCourier.Proofs.Walk.Counters
import ArtifactCourier.Proofs.Text.CommaList
import ArtifactCourier.Proofs.CommandLine.Spelling
import ArtifactCourier.Proofs.CommandLine.RoundTrip
import ArtifactCourier.Proofs.Store.Lines
import ArtifactCourier.Proofs.Walk.Script
import ArtifactCourier.Proofs.Walk.FaithfulLog
import ArtifactCourier.Proofs.Compression.Outcome
import ArtifactCourier.Proofs.Walk.Lockstep
import ArtifactCourier.Proofs.Walk.OtherEntries
import ArtifactCourier.Proofs.FileSystem.Created
import ArtifactCourier.Proofs.Compression.MissingSource
