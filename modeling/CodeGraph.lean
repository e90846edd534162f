import CodeGraph.Batch
import CodeGraph.Chunk
import CodeGraph.Chunking
import CodeGraph.Chunking.Entity
import CodeGraph.CodeIndex
import CodeGraph.CommandLine
import CodeGraph.Config
import CodeGraph.Config.Json
import CodeGraph.Database
import CodeGraph.Database.Stored
import CodeGraph.Decimal
import CodeGraph.Digest.Blake3
import CodeGraph.Digest.Hex
import CodeGraph.Digest.Sha1
import CodeGraph.Digest.Uuid
import CodeGraph.Discovery
import CodeGraph.Disk
import CodeGraph.Edge
import CodeGraph.Edge.Import
import CodeGraph.Edge.Merge
import CodeGraph.Edge.Reference
import CodeGraph.Edge.Structure
import CodeGraph.Embedding
import CodeGraph.Error
import CodeGraph.Extraction
import CodeGraph.Facts
import CodeGraph.Facts.EcmaScript
import CodeGraph.Facts.File
import CodeGraph.Facts.Python
import CodeGraph.FileEntry
import CodeGraph.FileIndex
import CodeGraph.Glob
import CodeGraph.Graph
import CodeGraph.Graph.Store
import CodeGraph.Ignore
import CodeGraph.Json
import CodeGraph.Json.Reader
import CodeGraph.Json.Record
import CodeGraph.Json.Writer
import CodeGraph.Language
import CodeGraph.Main
import CodeGraph.Package.Cache
import CodeGraph.Package.Lockfile
import CodeGraph.Package.Manifest
import CodeGraph.Package.Resolver
import CodeGraph.Package.Specifier
import CodeGraph.Path
import CodeGraph.Program
import CodeGraph.Proofs.Chunking
import CodeGraph.Proofs.Chunking.Coverage
import CodeGraph.Proofs.Chunking.Documentation
import CodeGraph.Proofs.Chunking.Identity
import CodeGraph.Proofs.Chunking.Lines
import CodeGraph.Proofs.CodeIndex
import CodeGraph.Proofs.CodeIndex.Agreement
import CodeGraph.Proofs.CodeIndex.Atomicity
import CodeGraph.Proofs.CodeIndex.Calls
import CodeGraph.Proofs.CodeIndex.Collisions
import CodeGraph.Proofs.CodeIndex.Holdings
import CodeGraph.Proofs.CodeIndex.Integrity
import CodeGraph.Proofs.CodeIndex.Order
import CodeGraph.Proofs.CodeIndex.Remembering
import CodeGraph.Proofs.CodeIndex.Restart
import CodeGraph.Proofs.Config
import CodeGraph.Proofs.Contents
import CodeGraph.Proofs.Discovery
import CodeGraph.Proofs.Discovery.Blank
import CodeGraph.Proofs.Discovery.Filter
import CodeGraph.Proofs.Discovery.Walk
import CodeGraph.Proofs.Disk
import CodeGraph.Proofs.Edge.Import
import CodeGraph.Proofs.Edge.Kinds
import CodeGraph.Proofs.Edge.Mentions
import CodeGraph.Proofs.Edge.Merge
import CodeGraph.Proofs.Edge.Reference
import CodeGraph.Proofs.Edge.Resolution
import CodeGraph.Proofs.Extraction
import CodeGraph.Proofs.Facts.Annotations
import CodeGraph.Proofs.Facts.Python
import CodeGraph.Proofs.Facts.Sites
import CodeGraph.Proofs.FileIndex
import CodeGraph.Proofs.FileIndex.Decisions
import CodeGraph.Proofs.FileIndex.Operations
import CodeGraph.Proofs.FileIndex.Partition
import CodeGraph.Proofs.Graph.Batches
import CodeGraph.Proofs.Graph.Holds
import CodeGraph.Proofs.Graph.Integrity
import CodeGraph.Proofs.Graph.Related
import CodeGraph.Proofs.Graph.Replacing
import CodeGraph.Proofs.Graph.Rows
import CodeGraph.Proofs.Graph.Walks
import CodeGraph.Proofs.LinkPass
import CodeGraph.Proofs.Links
import CodeGraph.Proofs.Lockfile
import CodeGraph.Proofs.Lockfile.PackageKey
import CodeGraph.Proofs.Lockfile.Pnpm
import CodeGraph.Proofs.Lockfile.Yarn
import CodeGraph.Proofs.Lockfile.Yarn.Line
import CodeGraph.Proofs.Path
import CodeGraph.Proofs.Path.Normal
import CodeGraph.Proofs.Processing
import CodeGraph.Proofs.Program
import CodeGraph.Proofs.Queue.Claiming
import CodeGraph.Proofs.Queue.Drain
import CodeGraph.Proofs.Queue.Enqueue
import CodeGraph.Proofs.Queue.History
import CodeGraph.Proofs.Queue.Idempotence
import CodeGraph.Proofs.Queue.Interleaving
import CodeGraph.Proofs.Queue.Landing
import CodeGraph.Proofs.Queue.Requests
import CodeGraph.Proofs.Queue.Retrying.Actions
import CodeGraph.Proofs.Queue.Retrying.Exhaustion
import CodeGraph.Proofs.Queue.Retrying.Tracking
import CodeGraph.Proofs.Queue.Scheduling
import CodeGraph.Proofs.Queue.Session
import CodeGraph.Proofs.Queue.Soundness
import CodeGraph.Proofs.Ranking
import CodeGraph.Proofs.Resolver
import CodeGraph.Proofs.Resolver.Clearing
import CodeGraph.Proofs.Resolver.Invalidation
import CodeGraph.Proofs.Resolver.Lookups
import CodeGraph.Proofs.Resolver.Reading
import CodeGraph.Proofs.Resolver.Slots
import CodeGraph.Proofs.Specifier
import CodeGraph.Proofs.Syntax.Blank
import CodeGraph.Proofs.Syntax.Blank.Bracketed
import CodeGraph.Proofs.Syntax.Blank.EcmaScript
import CodeGraph.Proofs.Syntax.Blank.Python
import CodeGraph.Proofs.Syntax.Walk
import CodeGraph.Proofs.Table
import CodeGraph.Proofs.Table.Revisions
import CodeGraph.Proofs.TaskTable
import CodeGraph.Proofs.TaskTable.Effects
import CodeGraph.Proofs.TaskTable.Operations
import CodeGraph.Proofs.TaskTable.Readable
import CodeGraph.Proofs.TaskTable.Requeue
import CodeGraph.Proofs.Text
import CodeGraph.Proofs.Text.Finds
import CodeGraph.Proofs.VectorStore
import CodeGraph.Proofs.Vectors
import CodeGraph.Proofs.Workspace.Current
import CodeGraph.Proofs.Workspace.Deciding
import CodeGraph.Proofs.Workspace.Fate
import CodeGraph.Proofs.Workspace.Forced
import CodeGraph.Proofs.Workspace.Held
import CodeGraph.Proofs.Workspace.Phases
import CodeGraph.Proofs.Workspace.Reached
import CodeGraph.Proofs.Workspace.Rebuild
import CodeGraph.Proofs.Workspace.Removal
import CodeGraph.Proofs.Workspace.Rescan
import CodeGraph.Proofs.Workspace.Scan
import CodeGraph.Proofs.Workspace.UpToDate
import CodeGraph.Proofs.Workspace.Versions
import CodeGraph.Queue
import CodeGraph.Queue.Run
import CodeGraph.Syntax
import CodeGraph.Syntax.Bracketed
import CodeGraph.Syntax.EcmaScript.Expression
import CodeGraph.Syntax.EcmaScript.Grammar
import CodeGraph.Syntax.EcmaScript.Statement
import CodeGraph.Syntax.EcmaScript.Token
import CodeGraph.Syntax.EcmaScript.Type
import CodeGraph.Syntax.Go
import CodeGraph.Syntax.Node
import CodeGraph.Syntax.Parser
import CodeGraph.Syntax.Python.Expression
import CodeGraph.Syntax.Python.Statement
import CodeGraph.Syntax.Python.Token
import CodeGraph.Syntax.Rust
import CodeGraph.Syntax.Walk
import CodeGraph.Table
import CodeGraph.Task
import CodeGraph.TaskTable
import CodeGraph.Text
import CodeGraph.Text.Case
import CodeGraph.Text.Property
import CodeGraph.Text.Table
import CodeGraph.Toml
import CodeGraph.Toml.Reader
import CodeGraph.Url
import CodeGraph.VectorStore
import CodeGraph.Workspace
import CodeGraph.Workspace.Opening
import CodeGraph.Workspace.Processing
import CodeGraph.Yaml
import CodeGraph.Yaml.Reader
import CodeGraph.Yaml.Scanner
