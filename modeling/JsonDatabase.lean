import JsonDatabase.RoundTrip
import JsonDatabase.Writable
import JsonDatabase.Interpreter
import JsonDatabase.LoadErrors
import JsonDatabase.Autocommit
import JsonDatabase.Visibility
import JsonDatabase.Escapes
import JsonDatabase.Clients
import JsonDatabase.Crash
import JsonDatabase.FileLock
import JsonDatabase.Contract
import JsonDatabase.Canonical
import JsonDatabase.Envelopes
import JsonDatabase.QueryErrors
import JsonDatabase.CollectionNames
import JsonDatabase.BulkWrites
import JsonDatabase.QueryMeaning
import JsonDatabase.LockBudget
import JsonDatabase.Healthy
import JsonDatabase.Recovery
import JsonDatabase.Rewritten
import JsonDatabase.Metadata
import JsonDatabase.Resources
import JsonDatabase.CliLaws
import JsonDatabase.History
import JsonDatabase.Isolation
import JsonDatabase.Aliases
import JsonDatabase.Basis.JsonSchema
import JsonDatabase.Schemas
import JsonDatabase.Published
import JsonDatabase.QuerySchema
