import OpenApiServer.Main
import OpenApiServer.Cli.Folder
import OpenApiServer.Items.Store
import OpenApiServer.Proofs.Http.Template
import OpenApiServer.Proofs.Data.Except
import OpenApiServer.Proofs.Build.Boxing
import OpenApiServer.Proofs.Build.Contents
import OpenApiServer.Proofs.Build.Declarations
import OpenApiServer.Proofs.Build.Sessions
import OpenApiServer.Proofs.Code.Dispatch
import OpenApiServer.Proofs.Document.Keys
import OpenApiServer.Proofs.Document.Source
import OpenApiServer.Proofs.Http.Lookup
import OpenApiServer.Proofs.Server.Declarations
import OpenApiServer.Proofs.Server.Shadowing
import OpenApiServer.Proofs.Server.Dispatch
import OpenApiServer.Proofs.Server.Draining
import OpenApiServer.Proofs.Server.Coherence
import OpenApiServer.Proofs.Server.Merges
import OpenApiServer.Proofs.Server.Acyclic
import OpenApiServer.Proofs.Cli.Listing
import OpenApiServer.Proofs.Items.Handling
import OpenApiServer.Proofs.Server.Parameters
import OpenApiServer.Proofs.Server.Enumerations
import OpenApiServer.Proofs.Server.SharedFields
import OpenApiServer.Proofs.Server.Responses
import OpenApiServer.Proofs.Server.Methods
import OpenApiServer.Proofs.Server.Captures
import OpenApiServer.Proofs.Server.FromText
import OpenApiServer.Proofs.Server.Reordering
import OpenApiServer.Proofs.Server.BoxedFields
import OpenApiServer.Proofs.Build.Settling
import OpenApiServer.Proofs.Code.Headers
import OpenApiServer.Proofs.Http.Decoding
import OpenApiServer.Proofs.Http.Lists
import OpenApiServer.Proofs.Document.Chains
import OpenApiServer.Proofs.Document.Pointers
import OpenApiServer.Proofs.Code.Conversions
import OpenApiServer.Proofs.Items.RoundTrip
import OpenApiServer.Proofs.Server.PermutedArms
import OpenApiServer.Proofs.Http.Paths
import OpenApiServer.Proofs.Name.Search
import OpenApiServer.Proofs.Name.Identifiers
import OpenApiServer.Proofs.Code.Package
