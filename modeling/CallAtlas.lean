import CallAtlas.Compare
import CallAtlas.Index.Change
import CallAtlas.Json.Line
import CallAtlas.Main
import CallAtlas.Proofs.Graph.ComponentRoutes
import CallAtlas.Proofs.Index.Owners
import CallAtlas.Proofs.Indexer.Reindexing
import CallAtlas.Proofs.Service.Notes
import CallAtlas.Proofs.Service.Order
import CallAtlas.Proofs.Store.Database
import CallAtlas.Proofs.Store.Saved
import CallAtlas.Service.Describe
import CallAtlas.Service.Prompt
import CallAtlas.Service.Search
import CallAtlas.Service.Source
import CallAtlas.Todo.Document
import CallAtlas.Value.Document
import CallAtlas.Value.Normal
import CallAtlas.Proofs.Todo.Pending
import CallAtlas.Proofs.Service.Failures
import CallAtlas.Proofs.Service.Remembered
import CallAtlas.Proofs.Service.Sources
import CallAtlas.Proofs.Index.Kinds
import CallAtlas.Index.Reading
import CallAtlas.Proofs.Index.Reading
import CallAtlas.Proofs.Service.Filling
import CallAtlas.Proofs.Service.Undescribed
import CallAtlas.Proofs.Service.Policies
import CallAtlas.Proofs.Graph.Blocks
import CallAtlas.Proofs.Graph.Distance
import CallAtlas.Proofs.Graph.Repeats
import CallAtlas.Proofs.Service.FirstRead
import CallAtlas.Proofs.Service.Views
import CallAtlas.Proofs.Todo.History
import CallAtlas.Proofs.Index.Refusals
import CallAtlas.Proofs.Index.Batches
import CallAtlas.Proofs.Fetch.Windows
import CallAtlas.Proofs.Fetch.LineNumbers
import CallAtlas.Proofs.Language.Declarators
import CallAtlas.Proofs.Language.Docstrings
import CallAtlas.Proofs.Text.Quoted
import CallAtlas.Proofs.Value.Printed
import CallAtlas.Proofs.Value.RoundTrip
import CallAtlas.Proofs.Compare.Differences
import CallAtlas.Proofs.Compare.Snapshots
import CallAtlas.Proofs.Indexer.ByName
import CallAtlas.Proofs.Service.Listing
import CallAtlas.Proofs.Todo.Recovery
import CallAtlas.Proofs.Index.Repairs
import CallAtlas.Merging
import CallAtlas.Proofs.Merging
