import TenantTree.Number.Layout
import TenantTree.Text.Quoted
import TenantTree.Text.Base64
import TenantTree.Json.Printer
import TenantTree.Json.Parser
import TenantTree.Value.Document
import TenantTree.Identifier
import TenantTree.LookupKey
import TenantTree.Row
import TenantTree.Record
import TenantTree.Codec
import TenantTree.Config
import TenantTree.Store.Script
import TenantTree.Metadata.Registry
import TenantTree.Metadata.Fetch
import TenantTree.Event
import TenantTree.Statement.Command
import TenantTree.Metadata.Extraction
import TenantTree.Value.Tagged
import TenantTree.Value.Listing
import TenantTree.Error
import TenantTree.Number.Reading
import TenantTree.Orphans
import TenantTree.Deployer.Calls
import TenantTree.Example.Customers
import TenantTree.Value.Notation
import TenantTree.Proofs.Work
import TenantTree.Proofs.RecordTree
import TenantTree.Proofs.Extraction
import TenantTree.Proofs.Discipline
import TenantTree.Proofs.Calls
import TenantTree.Proofs.Clause
import TenantTree.Proofs.Tenancy
import TenantTree.Proofs.Record
import TenantTree.Proofs.Frame
import TenantTree.Proofs.Atomicity
import TenantTree.Example.Widgets
import TenantTree.Proofs.LookupKey
import TenantTree.Proofs.Orphans
import TenantTree.Proofs.Resolution
import TenantTree.Proofs.Dialogue
import TenantTree.Proofs.Batch
import TenantTree.Proofs.Descent
import TenantTree.Proofs.Transaction
import TenantTree.Proofs.Sequence
import TenantTree.Proofs.Links
import TenantTree.Proofs.Journal
import TenantTree.Proofs.Accounting
import TenantTree.Proofs.Secrecy
import TenantTree.Proofs.Redeploy
import TenantTree.Proofs.Twins
import TenantTree.Proofs.Indifference
import TenantTree.Proofs.Survival
import TenantTree.Proofs.Shape
import TenantTree.Proofs.Attribution
import TenantTree.Proofs.Lexeme
import TenantTree.Proofs.Names
import TenantTree.Proofs.Wording
import TenantTree.Proofs.Bytes
import TenantTree.Proofs.Document
import TenantTree.Proofs.Codec
import TenantTree.Proofs.Hydration
import TenantTree.Proofs.Upkeep
import TenantTree.Proofs.Visits
import TenantTree.Proofs.Repetition
import TenantTree.Proofs.Raising
import TenantTree.Proofs.Causes
import TenantTree.Proofs.Saving
import TenantTree.Proofs.FirstFault
import TenantTree.Proofs.Acceptance
import TenantTree.Proofs.Planning
import TenantTree.Proofs.KeyExpression
import TenantTree.Proofs.Insertion
import TenantTree.Proofs.Grouping
import TenantTree.Proofs.Validation
import TenantTree.Proofs.Subsumption
import TenantTree.Proofs.WellFormed
import TenantTree.Proofs.Namesakes
import TenantTree.Proofs.ParentKeys
import TenantTree.Proofs.KeyText
import TenantTree.Proofs.Filtering
import TenantTree.Proofs.Tagged
import TenantTree.Proofs.JoinNames
import TenantTree.Proofs.Quoting
import TenantTree.Proofs.InexactTypes
import TenantTree.Proofs.Remembering
